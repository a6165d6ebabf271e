import IncrementalBuild.Proofs.Task.Callers
import Mathlib.Data.List.Nodup
import Mathlib.Data.Finset.Basic
import Mathlib.Data.Fintype.EquivFin

/-!
# A desk is a crowd that takes turns

A `MemoDesk` lets one caller finish before the next begins, and serves those who wait in
order of arrival. Its memo and its answers are those of a crowd whose callers happen to
interleave that way, so all that holds of every crowd holds of a desk.
-/

set_option autoImplicit false

namespace IncrementalBuild

/-- The answer to a caller with an initialiser that an event stands for. -/
def MemoEvent.reply? {ι α : Type} : MemoEvent ι α → Option (Memo.Reply α)
  | .answered _ a => some (.value a)
  | .abandoned _ .getOrInit => some .crashed
  | _ => none

/-- What can be at a desk: a producer from outside begins and ends, callers come, and the
value is taken. -/
inductive MemoDesk.Reached {α : Type} (born : Option α) : MemoDesk α → Prop
  | opened : Reached born { memo := (MemoCrowd.opened born : MemoCrowd Nat α).memo }
  | start {d : MemoDesk α} : Reached born d → d.memo = .empty →
      Reached born { d with memo := d.memo.start.2 }
  | call {d : MemoDesk α} (init : Option α) : Reached born d → Reached born (d.call init)
  | resolve {d : MemoDesk α} (a : α) : Reached born d → d.memo = .pending →
      Reached born (d.resolve a)
  | abandon {d : MemoDesk α} : Reached born d → d.memo = .pending → Reached born d.abandon
  | take {d : MemoDesk α} : Reached born d → Reached born { d with memo := d.memo.take.2 }

namespace MemoCrowd

variable {ι α : Type} [DecidableEq ι]

/-! ## One caller from beginning to end -/

/-- What a caller with an initialiser does once it has looked at the memo, if nobody comes
between. -/
def finish (c : ι) : Option α → List (MemoAction ι α)
  | some a => [.deliver c a, .signal c, .drop c]
  | none => [.drop c, .signal c]

theorem acts_append (s : MemoCrowd ι α) (actions more : List (MemoAction ι α)) :
    s.acts (actions ++ more) = (s.acts actions).acts more :=
  List.foldl_append

omit [DecidableEq ι] in
theorem wakeAll_of_quiet {s : MemoCrowd ι α} (h : ∀ d request, s.stage d ≠ .asleep request) :
    s.wakeAll = s := by
  have hstage : s.wakeAll.stage = s.stage := by
    funext d
    unfold wakeAll
    cases hd : s.stage d with
    | asleep request => exact absurd hd (h d request)
    | _ => simp [hd]
  obtain ⟨m, stage, history⟩ := s
  simpa [wakeAll] using hstage

/-- A caller that was answered, or sleeps, has nothing to finish. -/
theorem acts_finish_of_away {s : MemoCrowd ι α} {c : ι} (h : s.stage c = .away)
    (init : Option α) : s.acts (finish c init) = s := by
  cases init <;> simp [finish, acts, act, h]

theorem acts_finish_of_asleep {s : MemoCrowd ι α} {c : ι} {request : MemoRequest}
    (h : s.stage c = .asleep request) (init : Option α) : s.acts (finish c init) = s := by
  cases init <;> simp [finish, acts, act, h]

theorem put_put (s : MemoCrowd ι α) (c : ι) (stage stage' : MemoStage) :
    (s.put c stage).put c stage' = s.put c stage' := by
  unfold put
  congr 1
  funext d
  by_cases hd : d = c <;> simp [hd]

theorem put_note (s : MemoCrowd ι α) (e : MemoEvent ι α) (c : ι) (stage : MemoStage) :
    (s.note e).put c stage = (s.put c stage).note e := rfl

theorem act_signal_of_quiet {s : MemoCrowd ι α} {c : ι} {isResolved : Bool}
    (hc : s.stage c = .signalling isResolved) (hquiet : ∀ d request, s.stage d ≠ .asleep request) :
    s.act (.signal c) = s.put c (if isResolved then .parting else .away) := by
  simp only [act, hc, wakeAll_of_quiet hquiet]

/-- A producer that runs its initialiser while nobody sleeps delivers the value and goes. -/
theorem acts_finish_some {s : MemoCrowd ι α} {c : ι} (hc : s.stage c = .producing .getOrInit)
    (hquiet : ∀ d request, s.stage d ≠ .asleep request) (a : α) :
    s.acts (finish c (some a)) =
      (({ s with memo := .resolved a }.put c .away).note (.delivered a)).note
        (.answered c a) := by
  have hdeliver : s.act (.deliver c a) =
      ((({ s with memo := .resolved a }.put c (.signalling true)).note (.delivered a)).note
        (.answered c a)) := by
    simp [act, hc]
  have hquiet' : ∀ d request, (s.act (.deliver c a)).stage d ≠ .asleep request := by
    intro d request
    rw [hdeliver, stage_note, stage_note, stage_put]
    split
    · simp
    · exact hquiet d request
  have hstage : (s.act (.deliver c a)).stage c = .signalling true := by simp [hdeliver]
  have hsignal := act_signal_of_quiet hstage hquiet'
  have hdrop : ((s.act (.deliver c a)).put c .parting).act (.drop c) =
      (s.act (.deliver c a)).put c .away := by
    simp [act, put_put]
  calc s.acts (finish c (some a))
      = ((s.act (.deliver c a)).act (.signal c)).act (.drop c) := rfl
    _ = (s.act (.deliver c a)).put c .away := by rw [hsignal, if_pos rfl, hdrop]
    _ = _ := by rw [hdeliver, put_note, put_note, put_put]

/-- A producer whose initialiser crashes while nobody sleeps empties the memo and goes. -/
theorem acts_finish_none {s : MemoCrowd ι α} {c : ι} (hc : s.stage c = .producing .getOrInit)
    (hquiet : ∀ d request, s.stage d ≠ .asleep request) :
    s.acts (finish c none) =
      ({ s with memo := .empty }.put c .away).note (.abandoned c .getOrInit) := by
  have hdrop : s.act (.drop c) =
      ({ s with memo := .empty }.put c (.signalling false)).note (.abandoned c .getOrInit) := by
    simp [act, hc]
  have hquiet' : ∀ d request, (s.act (.drop c)).stage d ≠ .asleep request := by
    intro d request
    rw [hdrop, stage_note, stage_put]
    split
    · simp
    · exact hquiet d request
  have hstage : (s.act (.drop c)).stage c = .signalling false := by simp [hdrop]
  have hsignal := act_signal_of_quiet hstage hquiet'
  calc s.acts (finish c none)
      = (s.act (.drop c)).act (.signal c) := rfl
    _ = (s.act (.drop c)).put c .away := hsignal
    _ = _ := by rw [hdrop, put_note, put_put]

/-- A caller that looks at a memo while nobody sleeps and there is no producer ends away,
and leaves the memo as `Memo.getOrInit` does, with its answer. -/
theorem acts_visit {s : MemoCrowd ι α} {c : ι} (hmemo : s.memo ≠ .pending)
    (hquiet : ∀ d request, s.stage d ≠ .asleep request) (init : Option α) :
    let s' := (s.request c .getOrInit).acts (finish c init)
    s'.memo = (s.memo.getOrInit init).2 ∧
      (∀ d, s'.stage d = if d = c then .away else s.stage d) ∧
      s'.history.filterMap MemoEvent.reply? =
        s.history.filterMap MemoEvent.reply? ++ [(s.memo.getOrInit init).1] := by
  cases h : s.memo with
  | pending => exact absurd h hmemo
  | resolved a =>
    rw [request_of_resolved h, acts_finish_of_away (by simp)]
    refine ⟨by simp [h, Memo.getOrInit, Memo.start], fun d => stage_put s c d _, ?_⟩
    simp [MemoEvent.reply?, Memo.getOrInit, Memo.start]
  | empty =>
    rw [request_of_empty h]
    have hquiet' : ∀ d request, ((({ s with memo := .pending }.put c
        (.producing .getOrInit)).note (.produced c)).stage d) ≠ .asleep request := by
      intro d request
      rw [stage_note, stage_put]
      split
      · simp
      · exact hquiet d request
    cases init with
    | some a =>
      rw [acts_finish_some (by simp) hquiet']
      refine ⟨by simp [Memo.getOrInit, Memo.start, Memo.resolve, Memo.isPending], ?_, ?_⟩
      · intro d
        by_cases hd : d = c <;> simp [stage_put, hd]
      · simp [MemoEvent.reply?, Memo.getOrInit, Memo.start, List.filterMap_cons]
    | none =>
      rw [acts_finish_none (by simp) hquiet']
      refine ⟨by simp [Memo.getOrInit, Memo.start, Memo.abandon, Memo.isPending], ?_, ?_⟩
      · intro d
        by_cases hd : d = c <;> simp [stage_put, hd]
      · simp [MemoEvent.reply?, Memo.getOrInit, Memo.start, List.filterMap_cons]

/-! ## The callers who wait -/

theorem getOrInit_ne_pending {m : Memo α} (h : m ≠ .pending) (init : Option α) :
    (m.getOrInit init).2 ≠ .pending := by
  cases m with
  | pending => exact absurd rfl h
  | resolved a => simp [Memo.getOrInit, Memo.start]
  | empty => cases init <;> simp [Memo.getOrInit, Memo.start, Memo.resolve, Memo.abandon,
      Memo.isPending]

theorem call_of_ne_pending {d : MemoDesk α} (h : d.memo ≠ .pending) (init : Option α) :
    d.call init = { d with
      memo := (d.memo.getOrInit init).2
      served := d.served ++ [(d.memo.getOrInit init).1] } := by
  unfold MemoDesk.call
  cases hm : d.memo with
  | pending => exact absurd hm h
  | resolved a => rfl
  | empty => cases init <;> rfl

/-- The callers of `line` were woken and have not looked yet, all others are away. -/
structure Rising (s : MemoCrowd ι α) (d : MemoDesk α) (line : List ι) : Prop where
  memo : s.memo = d.memo
  ne_pending : d.memo ≠ .pending
  waiting : d.waiting = []
  nodup : line.Nodup
  stage : ∀ c, s.stage c = if c ∈ line then .woken .getOrInit else .away
  replies : s.history.filterMap MemoEvent.reply? = d.served

theorem Rising.quiet {s : MemoCrowd ι α} {d : MemoDesk α} {line : List ι} (h : s.Rising d line)
    (c : ι) (request : MemoRequest) : s.stage c ≠ .asleep request := by
  rw [h.stage c]
  split <;> simp

/-- The first of them looks and finishes, as the desk calls it. -/
theorem Rising.look {s : MemoCrowd ι α} {d : MemoDesk α} {c : ι} {line : List ι}
    (h : s.Rising d (c :: line)) (init : Option α) :
    (s.acts (.look c :: finish c init)).Rising (d.call init) line := by
  have hc : s.stage c = .woken .getOrInit := by simp [h.stage]
  have hlook : s.acts (.look c :: finish c init) =
      (s.request c .getOrInit).acts (finish c init) := by
    simp [acts, act, hc]
  have hpending : s.memo ≠ .pending := by
    rw [h.memo]
    exact h.ne_pending
  obtain ⟨hmemo, hstage, hreplies⟩ := acts_visit hpending h.quiet init
  rw [hlook, call_of_ne_pending h.ne_pending]
  obtain ⟨hnot, hnodup⟩ := List.nodup_cons.mp h.nodup
  refine ⟨?_, getOrInit_ne_pending h.ne_pending init, h.waiting, hnodup, ?_, ?_⟩
  · rw [hmemo, h.memo]
  · intro e
    rw [hstage, h.stage]
    by_cases he : e = c
    · simp [he, hnot]
    · simp [he]
  · rw [hreplies, h.replies, h.memo]

/-- All of them look, one after the other. -/
def looks (line : List ι) (inits : List (Option α)) : List (MemoAction ι α) :=
  (line.zip inits).flatMap fun (c, init) => .look c :: finish c init

theorem Rising.looks {s : MemoCrowd ι α} {d : MemoDesk α} {line : List ι} (h : s.Rising d line)
    {inits : List (Option α)} (hlength : line.length = inits.length) :
    (s.acts (looks line inits)).Rising (inits.foldl MemoDesk.call d) [] := by
  induction line generalizing s d inits with
  | nil =>
    obtain rfl : inits = [] := List.length_eq_zero_iff.mp hlength.symm
    exact h
  | cons c line ih =>
    cases inits with
    | nil => simp at hlength
    | cons init inits =>
      have hlooks : MemoCrowd.looks (c :: line) (init :: inits) =
          (.look c :: finish c init) ++ MemoCrowd.looks line inits := rfl
      rw [hlooks, acts_append]
      exact ih (h.look init) (by simpa using hlength)

/-! ## The desk -/

/-- The desk `d` shows what the crowd `s` does: the producer from outside is `p`, and those
who wait are the callers of `line`, in order. -/
structure Shows (p : ι) (s : MemoCrowd ι α) (d : MemoDesk α) (line : List ι) : Prop where
  memo : s.memo = d.memo
  seats : line.length = d.waiting.length
  nodup : line.Nodup
  outside : p ∉ line
  producer : s.stage p = if d.memo.isPending then .producing .start else .away
  stage : ∀ c ≠ p, s.stage c = if c ∈ line then .asleep .getOrInit else .away
  idle : d.memo ≠ .pending → line = []
  replies : s.history.filterMap MemoEvent.reply? = d.served

namespace Shows

variable {p : ι} {s : MemoCrowd ι α} {d : MemoDesk α} {line : List ι}

theorem of_rising (h : s.Rising d []) : Shows p s d [] where
  memo := h.memo
  seats := by simp [h.waiting]
  nodup := List.nodup_nil
  outside := by simp
  producer := by
    have hpending : d.memo.isPending = false := by
      cases hm : d.memo with
      | pending => exact absurd hm h.ne_pending
      | _ => rfl
    simp [h.stage, hpending]
  stage := by simp [h.stage]
  idle := fun _ => rfl
  replies := h.replies

theorem start (h : Shows p s d line) (hempty : d.memo = .empty) :
    Shows p (s.act (.ask p .start)) { d with memo := d.memo.start.2 } [] := by
  have hline := h.idle (by simp [hempty])
  have hp : s.stage p = .away := by simp [h.producer, hempty, Memo.isPending]
  have hmemo : s.memo = .empty := by rw [h.memo, hempty]
  have hact : s.act (.ask p .start) =
      ({ s with memo := .pending }.put p (.producing .start)).note (.produced p) := by
    simp only [act, hp, request_of_empty hmemo]
  subst hline
  rw [hact, hempty]
  refine ⟨rfl, h.seats, List.nodup_nil, by simp, by simp [Memo.start, Memo.isPending], ?_,
    fun _ => rfl, ?_⟩
  · intro c hc
    rw [stage_note, stage_put, if_neg hc]
    exact h.stage c hc
  · simpa [MemoEvent.reply?, List.filterMap_cons] using h.replies

theorem call (h : Shows p s d line) {c : ι} (hcp : c ≠ p) (hcl : c ∉ line) (init : Option α) :
    ∃ line', Shows p (s.acts (.ask c .getOrInit :: finish c init)) (d.call init) line' := by
  have hc : s.stage c = .away := by rw [h.stage c hcp, if_neg hcl]
  have hask : s.acts (.ask c .getOrInit :: finish c init) =
      (s.request c .getOrInit).acts (finish c init) := by
    simp [acts, act, hc]
  rw [hask]
  by_cases hpending : d.memo = .pending
  · have hmemo : s.memo = .pending := h.memo.trans hpending
    have hcall : d.call init = { d with waiting := d.waiting ++ [init] } := by
      obtain ⟨m, waiting, served⟩ := d
      simp only at hpending
      subst hpending
      rfl
    rw [request_of_pending hmemo, acts_finish_of_asleep (stage_put_self s c _), hcall]
    refine ⟨line ++ [c], h.memo, by simp [h.seats], ?_, ?_, ?_, ?_, ?_, h.replies⟩
    · simpa using h.nodup.concat hcl
    · simp [h.outside, hcp.symm]
    · rw [stage_put, if_neg hcp.symm]
      exact h.producer
    · intro e he
      rw [stage_put, h.stage e he]
      by_cases hec : e = c <;> simp [hec]
    · exact fun hne => absurd hpending hne
  · have hline := h.idle hpending
    subst hline
    have hrising : s.Rising d [] := by
      refine ⟨h.memo, hpending, List.length_eq_zero_iff.mp h.seats.symm, List.nodup_nil, ?_,
        h.replies⟩
      intro e
      by_cases he : e = p
      · subst he
        cases hm : d.memo <;> simp_all [h.producer, Memo.isPending]
      · simpa using h.stage e he
    obtain ⟨hmemo, hstage, hreplies⟩ :=
      acts_visit (by rw [h.memo]; exact hpending) hrising.quiet init
    refine ⟨[], of_rising ?_⟩
    rw [call_of_ne_pending hpending]
    refine ⟨by rw [hmemo, h.memo], getOrInit_ne_pending hpending init, hrising.waiting,
      List.nodup_nil, ?_, by rw [hreplies, h.replies, h.memo]⟩
    intro e
    rw [hstage, hrising.stage]
    simp

/-- Once the producer has written and its signal has come, those who wait are woken. -/
theorem rising_signal (h : Shows p s d line) {t : MemoCrowd ι α} {isResolved : Bool}
    (hp : t.stage p = .signalling isResolved) (hstage : ∀ c ≠ p, t.stage c = s.stage c)
    (hpending : t.memo ≠ .pending)
    (hreplies : t.history.filterMap MemoEvent.reply? = s.history.filterMap MemoEvent.reply?) :
    (t.acts [.signal p, .drop p]).Rising { memo := t.memo, served := d.served } line := by
  have hsignal : t.acts [.signal p, .drop p] = t.wakeAll.put p .away := by
    cases isResolved <;> simp [acts, act, hp, put_put]
  rw [hsignal]
  refine ⟨rfl, hpending, rfl, h.nodup, ?_, hreplies.trans h.replies⟩
  intro c
  rw [stage_put]
  by_cases hc : c = p
  · subst hc
    rw [if_pos rfl, if_neg h.outside]
  · have hcs := hstage c hc
    rw [h.stage c hc] at hcs
    by_cases hl : c ∈ line
    · rw [if_pos hl] at hcs
      simp [wakeAll, hcs, hc, hl]
    · rw [if_neg hl] at hcs
      simp [wakeAll, hcs, hc, hl]

theorem resolve (h : Shows p s d line) (hpending : d.memo = .pending) (a : α) :
    Shows p (s.acts (.deliver p a :: [.signal p, .drop p] ++ looks line d.waiting))
      (d.resolve a) [] := by
  have hp : s.stage p = .producing .start := by simp [h.producer, hpending, Memo.isPending]
  have hdeliver : s.act (.deliver p a) =
      ({ s with memo := .resolved a }.put p (.signalling true)).note (.delivered a) := by
    simp [act, hp]
  have hrising : ((s.act (.deliver p a)).acts [.signal p, .drop p]).Rising
      { memo := (s.act (.deliver p a)).memo, served := d.served } line := by
    have hsignalling : (s.act (.deliver p a)).stage p = .signalling true := by simp [hdeliver]
    refine h.rising_signal hsignalling ?_ (by simp [hdeliver]) ?_
    · intro c hc
      rw [hdeliver, stage_note, stage_put, if_neg hc]
    · simp [hdeliver, MemoEvent.reply?, List.filterMap_cons]
  have hresolve : d.resolve a =
      d.waiting.foldl MemoDesk.call { memo := .resolved a, served := d.served } := by
    simp [MemoDesk.resolve, MemoDesk.wake, Memo.resolve, Memo.isPending, hpending]
  have hmemo : (s.act (.deliver p a)).memo = .resolved a := by simp [hdeliver]
  rw [hmemo] at hrising
  rw [hresolve, acts_append]
  exact of_rising (hrising.looks h.seats)

theorem abandon (h : Shows p s d line) (hpending : d.memo = .pending) :
    Shows p (s.acts (.drop p :: [.signal p, .drop p] ++ looks line d.waiting)) d.abandon [] := by
  have hp : s.stage p = .producing .start := by simp [h.producer, hpending, Memo.isPending]
  have hdrop : s.act (.drop p) =
      ({ s with memo := .empty }.put p (.signalling false)).note (.abandoned p .start) := by
    simp [act, hp]
  have hrising : ((s.act (.drop p)).acts [.signal p, .drop p]).Rising
      { memo := (s.act (.drop p)).memo, served := d.served } line := by
    have hsignalling : (s.act (.drop p)).stage p = .signalling false := by simp [hdrop]
    refine h.rising_signal hsignalling ?_ (by simp [hdrop]) ?_
    · intro c hc
      rw [hdrop, stage_note, stage_put, if_neg hc]
    · simp [hdrop, MemoEvent.reply?, List.filterMap_cons]
  have habandon : d.abandon =
      d.waiting.foldl MemoDesk.call { memo := .empty, served := d.served } := by
    simp [MemoDesk.abandon, MemoDesk.wake, Memo.abandon, Memo.isPending, hpending]
  have hmemo : (s.act (.drop p)).memo = .empty := by simp [hdrop]
  rw [hmemo] at hrising
  rw [habandon, acts_append]
  exact of_rising (hrising.looks h.seats)

theorem take (h : Shows p s d line) :
    Shows p (s.act .take) { d with memo := d.memo.take.2 } line := by
  cases hm : d.memo with
  | resolved a =>
    have hmemo : s.memo = .resolved a := h.memo.trans hm
    have hact : s.act .take = { s with memo := .empty }.note (.took a) := by
      simp [act, hmemo, Memo.take]
    have hline := h.idle (by simp [hm])
    rw [hact]
    refine ⟨rfl, h.seats, h.nodup, h.outside, ?_, h.stage, fun _ => hline, ?_⟩
    · simpa [hm, Memo.isPending, Memo.take] using h.producer
    · simpa [MemoEvent.reply?, List.filterMap_cons] using h.replies
  | _ =>
    rw [act_take_of_peek (by simp [h.memo, hm, Memo.peek])]
    simpa [Memo.take, ← hm] using h

end Shows

theorem rising_opened (born : Option α) : (opened born : MemoCrowd ι α).Rising
    { memo := (opened born : MemoCrowd ι α).memo } [] := by
  cases born with
  | none => exact ⟨rfl, by simp [opened], rfl, List.nodup_nil, by simp [opened], rfl⟩
  | some a => exact ⟨rfl, by simp [opened], rfl, List.nodup_nil, by simp [opened], rfl⟩

/-- Whatever is done at a desk, its memo and its answers are those of a crowd. -/
theorem exists_acts_of_reached {born : Option α} {d : MemoDesk α} (h : d.Reached born) :
    ∃ actions line, Shows 0 ((opened born : MemoCrowd Nat α).acts actions) d line := by
  induction h with
  | opened => exact ⟨[], [], .of_rising (rising_opened born)⟩
  | start _ hempty ih =>
    obtain ⟨actions, line, ih⟩ := ih
    refine ⟨actions ++ [.ask 0 .start], [], ?_⟩
    rw [acts_append]
    exact ih.start hempty
  | call init _ ih =>
    obtain ⟨actions, line, ih⟩ := ih
    obtain ⟨c, hc⟩ := Infinite.exists_notMem_finset (0 :: line).toFinset
    simp only [List.mem_toFinset, List.mem_cons, not_or] at hc
    obtain ⟨line', hcall⟩ := ih.call hc.1 hc.2 init
    refine ⟨actions ++ .ask c .getOrInit :: finish c init, line', ?_⟩
    rw [acts_append]
    exact hcall
  | resolve a _ hpending ih =>
    obtain ⟨actions, line, ih⟩ := ih
    have hresolve := ih.resolve hpending a
    rw [← acts_append] at hresolve
    exact ⟨_, [], hresolve⟩
  | abandon _ hpending ih =>
    obtain ⟨actions, line, ih⟩ := ih
    have habandon := ih.abandon hpending
    rw [← acts_append] at habandon
    exact ⟨_, [], habandon⟩
  | take _ ih =>
    obtain ⟨actions, line, ih⟩ := ih
    refine ⟨actions ++ [.take], line, ?_⟩
    rw [acts_append]
    exact ih.take

end MemoCrowd

end IncrementalBuild
