import IncrementalBuild.Task.Callers
import Mathlib.Data.Option.Basic
import Mathlib.Data.List.Basic

/-!
# A memo is computed at most once

Whatever its callers do, and however their steps interleave, a pending memo has exactly
one producer and any other memo none. The history of a memo falls into periods, each
ended by a successful `take`. In a period at most one value is delivered, and whoever is
answered in it is answered with that value.
-/

set_option autoImplicit false

namespace IncrementalBuild

/-- The value an event delivers. -/
def MemoEvent.delivered? {ι α : Type} : MemoEvent ι α → Option α
  | .delivered a => some a
  | _ => none

namespace MemoCrowd

variable {ι α : Type}

/-! ## What a history tells -/

/-- `Tells v events w`: the memo held `v`, then the events came about, and it holds `w`.
Producers come and go only while there is no value, answers tell the value, and only a
`take` ends it. -/
inductive Tells : Option α → List (MemoEvent ι α) → Option α → Prop
  | nil (v : Option α) : Tells v [] v
  | produced {c : ι} {events : List (MemoEvent ι α)} {w : Option α} :
      Tells none events w → Tells none (.produced c :: events) w
  | abandoned {c : ι} {request : MemoRequest} {events : List (MemoEvent ι α)} {w : Option α} :
      Tells none events w → Tells none (.abandoned c request :: events) w
  | delivered {a : α} {events : List (MemoEvent ι α)} {w : Option α} :
      Tells (some a) events w → Tells none (.delivered a :: events) w
  | answered {c : ι} {a : α} {events : List (MemoEvent ι α)} {w : Option α} :
      Tells (some a) events w → Tells (some a) (.answered c a :: events) w
  | took {a : α} {events : List (MemoEvent ι α)} {w : Option α} :
      Tells none events w → Tells (some a) (.took a :: events) w

namespace Tells

theorem append {u v w : Option α} {events later : List (MemoEvent ι α)}
    (h : Tells u events v) (h' : Tells v later w) : Tells u (events ++ later) w := by
  induction h with
  | nil _ => exact h'
  | produced _ ih => exact .produced (ih h')
  | abandoned _ ih => exact .abandoned (ih h')
  | delivered _ ih => exact .delivered (ih h')
  | answered _ ih => exact .answered (ih h')
  | took _ ih => exact .took (ih h')

/-- A history can be cut anywhere. -/
theorem split {u w : Option α} {events later : List (MemoEvent ι α)}
    (h : Tells u (events ++ later) w) : ∃ v, Tells u events v ∧ Tells v later w := by
  induction events generalizing u with
  | nil => exact ⟨u, .nil u, h⟩
  | cons e events ih =>
    rw [List.cons_append] at h
    cases h with
    | produced h =>
      obtain ⟨v, h₁, h₂⟩ := ih h
      exact ⟨v, .produced h₁, h₂⟩
    | abandoned h =>
      obtain ⟨v, h₁, h₂⟩ := ih h
      exact ⟨v, .abandoned h₁, h₂⟩
    | delivered h =>
      obtain ⟨v, h₁, h₂⟩ := ih h
      exact ⟨v, .delivered h₁, h₂⟩
    | answered h =>
      obtain ⟨v, h₁, h₂⟩ := ih h
      exact ⟨v, .answered h₁, h₂⟩
    | took h =>
      obtain ⟨v, h₁, h₂⟩ := ih h
      exact ⟨v, .took h₁, h₂⟩

/-- What was delivered before the first `take` is what the memo holds in the end. -/
theorem delivered_eq {v w : Option α} {events : List (MemoEvent ι α)} (h : Tells v events w)
    (htook : ∀ a, .took a ∉ events) :
    v.toList ++ events.filterMap MemoEvent.delivered? = w.toList := by
  induction h with
  | nil v => simp
  | produced _ ih =>
    simpa [MemoEvent.delivered?, List.filterMap_cons] using ih (by simpa using htook)
  | abandoned _ ih =>
    simpa [MemoEvent.delivered?, List.filterMap_cons] using ih (by simpa using htook)
  | delivered _ ih =>
    simpa [MemoEvent.delivered?, List.filterMap_cons] using ih (by simpa using htook)
  | answered _ ih =>
    simpa [MemoEvent.delivered?, List.filterMap_cons] using ih (by simpa using htook)
  | @took a events w _ _ => exact absurd List.mem_cons_self (htook a)

/-- Before the first `take`, a value that is there stays. -/
theorem eq_of_some {a : α} {w : Option α} {events : List (MemoEvent ι α)}
    (h : Tells (some a) events w) (htook : ∀ a, .took a ∉ events) : w = some a := by
  have hlist := h.delivered_eq htook
  cases w with
  | none => simp at hlist
  | some b => simpa using (List.cons.inj hlist).1.symm

/-- Before the first `take`, whoever is answered is answered with what the memo holds in
the end. -/
theorem answered_eq {v w : Option α} {events : List (MemoEvent ι α)} (h : Tells v events w)
    (htook : ∀ a, .took a ∉ events) {c : ι} {a : α} (ha : .answered c a ∈ events) :
    w = some a := by
  obtain ⟨earlier, later, rfl⟩ := List.append_of_mem ha
  obtain ⟨u, -, hu⟩ := h.split
  cases hu with
  | answered hu =>
    apply hu.eq_of_some
    intro b hb
    exact htook b (by simp [hb])

/-- A `take` takes what the memo holds, and leaves nothing. -/
theorem of_took {v w : Option α} {a : α} {later : List (MemoEvent ι α)}
    (h : Tells v (.took a :: later) w) : v = some a ∧ Tells none later w := by
  cases h with
  | took h => exact ⟨rfl, h⟩

end Tells

/-! ## Producers and sleepers -/

/-- The caller has a producer that has written nothing yet. -/
def IsProducer (s : MemoCrowd ι α) (c : ι) : Prop := ∃ request, s.stage c = .producing request

/-- The caller may take the lock to look at the memo: it has just come, or was woken. -/
def MayLook (s : MemoCrowd ι α) (c : ι) : Prop :=
  s.stage c = .away ∨ ∃ request, s.stage c = .woken request

theorem MayLook.not_isProducer {s : MemoCrowd ι α} {c : ι} (h : s.MayLook c) :
    ¬ s.IsProducer c := by
  rintro ⟨request, hc⟩
  rcases h with h | ⟨other, h⟩
  · simp [hc] at h
  · simp [hc] at h

/-- A pending memo has exactly one producer, any other has none. -/
def Manned (s : MemoCrowd ι α) : Prop :=
  match s.memo with
  | .pending => ∃ c, ∀ d, s.IsProducer d ↔ d = c
  | _ => ∀ d, ¬ s.IsProducer d

namespace Manned

variable {s s' : MemoCrowd ι α}

theorem congr (h : s.Manned) (hmemo : s'.memo = s.memo)
    (hsame : ∀ d, s'.IsProducer d ↔ s.IsProducer d) : s'.Manned := by
  simpa only [Manned, hmemo, hsame] using h

theorem of_ne_pending (hmemo : s.memo ≠ .pending) (hnone : ∀ d, ¬ s.IsProducer d) :
    s.Manned := by
  unfold Manned
  split
  · next h => exact absurd h hmemo
  · exact hnone

theorem not_isProducer (h : s.Manned) (hmemo : s.memo ≠ .pending) (d : ι) :
    ¬ s.IsProducer d := by
  unfold Manned at h
  split at h
  · next hpending => exact absurd hpending hmemo
  · exact h d

theorem pending (h : s.Manned) {c : ι} (hc : s.IsProducer c) : s.memo = .pending := by
  by_contra hmemo
  exact h.not_isProducer hmemo c hc

theorem iff_eq (h : s.Manned) {c : ι} (hc : s.IsProducer c) (d : ι) :
    s.IsProducer d ↔ d = c := by
  have hpending := h.pending hc
  simp only [Manned, hpending] at h
  obtain ⟨e, he⟩ := h
  have hce : c = e := (he c).mp hc
  subst hce
  exact he d

theorem pending_iff (h : s.Manned) : s.memo = .pending ↔ ∃ c, s.IsProducer c := by
  constructor
  · intro hpending
    simp only [Manned, hpending] at h
    obtain ⟨c, hc⟩ := h
    exact ⟨c, (hc c).mpr rfl⟩
  · rintro ⟨c, hc⟩
    exact h.pending hc

/-- Without its producer a memo has none. -/
theorem alone (h : s.Manned) {c : ι} (hc : s.IsProducer c) (d : ι) :
    ¬ (d ≠ c ∧ s.IsProducer d) := by
  rintro ⟨hne, hd⟩
  exact hne ((h.iff_eq hc d).mp hd)

end Manned

/-- Nobody sleeps unless there is a producer at work or a signal to come. -/
def Awaited (s : MemoCrowd ι α) : Prop :=
  ∀ c request, s.stage c = .asleep request →
    s.memo = .pending ∨ ∃ d isResolved, s.stage d = .signalling isResolved

theorem Awaited.of_signalling {s : MemoCrowd ι α} {c : ι} {isResolved : Bool}
    (h : s.stage c = .signalling isResolved) : s.Awaited :=
  fun _ _ _ => .inr ⟨c, isResolved, h⟩

/-- The history tells what the memo holds. -/
def Told (s : MemoCrowd ι α) : Prop := Tells none s.history s.memo.peek

/-! ## What an action does -/

@[simp] theorem memo_note (s : MemoCrowd ι α) (e : MemoEvent ι α) :
    (s.note e).memo = s.memo := rfl

@[simp] theorem stage_note (s : MemoCrowd ι α) (e : MemoEvent ι α) :
    (s.note e).stage = s.stage := rfl

@[simp] theorem history_note (s : MemoCrowd ι α) (e : MemoEvent ι α) :
    (s.note e).history = s.history ++ [e] := rfl

@[simp] theorem memo_wakeAll (s : MemoCrowd ι α) : s.wakeAll.memo = s.memo := rfl

theorem stage_wakeAll_ne_asleep (s : MemoCrowd ι α) (c : ι) (request : MemoRequest) :
    s.wakeAll.stage c ≠ .asleep request := by
  unfold wakeAll
  cases h : s.stage c <;> simp [h]

theorem isProducer_wakeAll (s : MemoCrowd ι α) (d : ι) :
    s.wakeAll.IsProducer d ↔ s.IsProducer d := by
  unfold IsProducer wakeAll
  cases h : s.stage d <;> simp [h]

variable [DecidableEq ι]

@[simp] theorem memo_put (s : MemoCrowd ι α) (c : ι) (stage : MemoStage) :
    (s.put c stage).memo = s.memo := rfl

@[simp] theorem history_put (s : MemoCrowd ι α) (c : ι) (stage : MemoStage) :
    (s.put c stage).history = s.history := rfl

theorem stage_put (s : MemoCrowd ι α) (c d : ι) (stage : MemoStage) :
    (s.put c stage).stage d = if d = c then stage else s.stage d := rfl

@[simp] theorem stage_put_self (s : MemoCrowd ι α) (c : ι) (stage : MemoStage) :
    (s.put c stage).stage c = stage := if_pos rfl

/-- A caller that becomes a producer is one, and nobody else becomes one. -/
theorem isProducer_put_producing (s : MemoCrowd ι α) (c d : ι) (request : MemoRequest) :
    (s.put c (.producing request)).IsProducer d ↔ d = c ∨ s.IsProducer d := by
  unfold IsProducer
  rw [stage_put]
  by_cases hd : d = c <;> simp [hd]

/-- A caller that goes elsewhere is no producer, and nobody else becomes or ceases to be
one. -/
theorem isProducer_put_of_ne {stage : MemoStage} (hstage : ∀ request, stage ≠ .producing request)
    (s : MemoCrowd ι α) (c d : ι) :
    (s.put c stage).IsProducer d ↔ d ≠ c ∧ s.IsProducer d := by
  unfold IsProducer
  rw [stage_put]
  by_cases hd : d = c <;> simp [hd, hstage]

/-- A caller that was no producer and goes elsewhere leaves the producers as they are. -/
theorem isProducer_put_of_not {s : MemoCrowd ι α} {c : ι} {stage : MemoStage}
    (hc : ¬ s.IsProducer c) (hstage : ∀ request, stage ≠ .producing request) (d : ι) :
    (s.put c stage).IsProducer d ↔ s.IsProducer d := by
  rw [isProducer_put_of_ne hstage]
  constructor
  · exact And.right
  · intro hd
    refine ⟨?_, hd⟩
    rintro rfl
    exact hc hd

theorem request_of_resolved {s : MemoCrowd ι α} {a : α} (h : s.memo = .resolved a) (c : ι)
    (request : MemoRequest) :
    s.request c request = (s.put c .away).note (.answered c a) := by
  obtain ⟨m, stage, history⟩ := s
  simp only at h
  subst h
  rfl

theorem request_of_pending {s : MemoCrowd ι α} (h : s.memo = .pending) (c : ι)
    (request : MemoRequest) : s.request c request = s.put c (.asleep request) := by
  obtain ⟨m, stage, history⟩ := s
  simp only at h
  subst h
  rfl

theorem request_of_empty {s : MemoCrowd ι α} (h : s.memo = .empty) (c : ι)
    (request : MemoRequest) :
    s.request c request =
      ({ s with memo := .pending }.put c (.producing request)).note (.produced c) := by
  obtain ⟨m, stage, history⟩ := s
  simp only at h
  subst h
  rfl

/-- A `take` that finds no value changes nothing. -/
theorem act_take_of_peek {s : MemoCrowd ι α} (h : s.memo.peek = none) : s.act .take = s := by
  obtain ⟨m, stage, history⟩ := s
  cases m with
  | empty => rfl
  | pending => rfl
  | resolved a => simp [Memo.peek] at h

/-- What one action can do to a memo and its callers, with what it depends on. -/
inductive Turn (s : MemoCrowd ι α) : MemoCrowd ι α → Prop
  | idle : Turn s s
  | answered (c : ι) (a : α) : s.MayLook c → s.memo = .resolved a →
      Turn s ((s.put c .away).note (.answered c a))
  | blocked (c : ι) (request : MemoRequest) : s.MayLook c → s.memo = .pending →
      Turn s (s.put c (.asleep request))
  | produced (c : ι) (request : MemoRequest) : s.MayLook c → s.memo = .empty →
      Turn s (({ s with memo := .pending }.put c (.producing request)).note (.produced c))
  | delivered (c : ι) (a : α) : s.stage c = .producing .start →
      Turn s (({ s with memo := .resolved a }.put c (.signalling true)).note (.delivered a))
  | initialised (c : ι) (a : α) : s.stage c = .producing .getOrInit →
      Turn s ((({ s with memo := .resolved a }.put c (.signalling true)).note
        (.delivered a)).note (.answered c a))
  | abandoned (c : ι) (request : MemoRequest) : s.stage c = .producing request →
      Turn s (({ s with memo := .empty }.put c (.signalling false)).note
        (.abandoned c request))
  | parted (c : ι) : s.stage c = .parting → Turn s (s.put c .away)
  | signalled (c : ι) (isResolved : Bool) : s.stage c = .signalling isResolved →
      Turn s (s.wakeAll.put c (if isResolved then .parting else .away))
  | peeked (c : ι) (a : α) : s.memo = .resolved a → Turn s (s.note (.answered c a))
  | took (a : α) : s.memo = .resolved a → Turn s ({ s with memo := .empty }.note (.took a))

theorem turn_request {s : MemoCrowd ι α} {c : ι} (hc : s.MayLook c) (request : MemoRequest) :
    s.Turn (s.request c request) := by
  cases h : s.memo with
  | empty =>
    rw [request_of_empty h]
    exact .produced c request hc h
  | pending =>
    rw [request_of_pending h]
    exact .blocked c request hc h
  | resolved a =>
    rw [request_of_resolved h]
    exact .answered c a hc h

/-- Every action is one of these turns. -/
theorem turn_act (s : MemoCrowd ι α) (action : MemoAction ι α) : s.Turn (s.act action) := by
  cases action with
  | ask c request =>
    simp only [act]
    split
    · next h => exact turn_request (.inl h) request
    · exact .idle
  | look c =>
    simp only [act]
    split
    · next request h => exact turn_request (.inr ⟨request, h⟩) request
    · exact .idle
  | deliver c a =>
    simp only [act]
    split
    · next h => exact .delivered c a h
    · next h => exact .initialised c a h
    · exact .idle
  | drop c =>
    simp only [act]
    split
    · next request h => exact .abandoned c request h
    · next h => exact .parted c h
    · exact .idle
  | signal c =>
    simp only [act]
    split
    · next isResolved h => exact .signalled c isResolved h
    · exact .idle
  | peek c =>
    cases h : s.memo with
    | empty => simpa [act, h, Memo.peek] using .idle
    | pending => simpa [act, h, Memo.peek] using .idle
    | resolved a => simpa [act, h, Memo.peek] using .peeked c a h
  | take =>
    cases h : s.memo with
    | empty => simpa [act_take_of_peek, h, Memo.peek] using .idle
    | pending => simpa [act_take_of_peek, h, Memo.peek] using .idle
    | resolved a => simpa [act, h, Memo.take] using .took a h

/-! ## What every turn keeps -/

section

variable {s s' : MemoCrowd ι α}

theorem Manned.turn (h : s.Manned) (t : s.Turn s') : s'.Manned := by
  cases t with
  | idle => exact h
  | answered c a hc hmemo =>
    refine h.congr (by simp) fun d => ?_
    exact isProducer_put_of_not hc.not_isProducer (by simp) d
  | blocked c request hc hmemo =>
    refine h.congr (by simp) fun d => ?_
    exact isProducer_put_of_not hc.not_isProducer (by simp) d
  | produced c request hc hmemo =>
    have hnone := h.not_isProducer (by simp [hmemo])
    refine ⟨c, fun d => (isProducer_put_producing _ c d request).trans ?_⟩
    exact or_iff_left (hnone d)
  | delivered c a hc =>
    refine of_ne_pending (by simp) fun d hd => ?_
    exact h.alone ⟨_, hc⟩ d ((isProducer_put_of_ne (by simp) _ c d).mp hd)
  | initialised c a hc =>
    refine of_ne_pending (by simp) fun d hd => ?_
    exact h.alone ⟨_, hc⟩ d ((isProducer_put_of_ne (by simp) _ c d).mp hd)
  | abandoned c request hc =>
    refine of_ne_pending (by simp) fun d hd => ?_
    exact h.alone ⟨_, hc⟩ d ((isProducer_put_of_ne (by simp) _ c d).mp hd)
  | parted c hc =>
    refine h.congr (by simp) fun d => ?_
    exact isProducer_put_of_not (by simp [IsProducer, hc]) (by simp) d
  | signalled c isResolved hc =>
    have hnot : ¬ s.wakeAll.IsProducer c := by
      rw [isProducer_wakeAll]
      simp [IsProducer, hc]
    refine h.congr (by simp) fun d => ?_
    rw [isProducer_put_of_not hnot (by cases isResolved <;> simp), isProducer_wakeAll]
  | peeked c a hmemo => exact h.congr (by simp) fun d => Iff.rfl
  | took a hmemo => exact of_ne_pending (by simp) (h.not_isProducer (by simp [hmemo]))

/-- A caller that was not to signal may go anywhere but to sleep. -/
theorem Awaited.put (h : s.Awaited) {c : ι} {stage : MemoStage}
    (hc : ∀ isResolved, s.stage c ≠ .signalling isResolved)
    (hstage : ∀ request, stage ≠ .asleep request) : (s.put c stage).Awaited := by
  intro d request hd
  rw [stage_put] at hd
  by_cases hdc : d = c
  · rw [if_pos hdc] at hd
    exact absurd hd (hstage request)
  · rw [if_neg hdc] at hd
    rcases h d request hd with hmemo | ⟨e, isResolved, he⟩
    · exact .inl hmemo
    · have hec : e ≠ c := by
        rintro rfl
        exact hc isResolved he
      refine .inr ⟨e, isResolved, ?_⟩
      rw [stage_put, if_neg hec, he]

theorem Awaited.turn (h : s.Awaited) (t : s.Turn s') : s'.Awaited := by
  cases t with
  | idle => exact h
  | answered c a hc hmemo =>
    have hput : (s.put c .away).Awaited := by
      apply h.put
      · intro isResolved hsignalling
        rcases hc with hc | ⟨request, hc⟩ <;> simp [hc] at hsignalling
      · simp
    exact hput
  | blocked c request hc hmemo => exact fun _ _ _ => .inl hmemo
  | produced c request hc hmemo => exact fun _ _ _ => .inl rfl
  | delivered c a hc => exact of_signalling (stage_put_self _ c _)
  | initialised c a hc => exact of_signalling (stage_put_self _ c _)
  | abandoned c request hc => exact of_signalling (stage_put_self _ c _)
  | parted c hc => exact h.put (by simp [hc]) (by simp)
  | signalled c isResolved hc =>
    intro d request hd
    rw [stage_put] at hd
    split at hd
    · cases isResolved <;> simp at hd
    · exact absurd hd (stage_wakeAll_ne_asleep s d request)
  | peeked c a hmemo => exact h
  | took a hmemo =>
    intro d request hd
    rcases h d request hd with hpending | hsignal
    · simp [hmemo] at hpending
    · exact .inr hsignal

theorem Told.turn (h : s.Told) (hmanned : s.Manned) (t : s.Turn s') : s'.Told := by
  unfold Told at h ⊢
  cases t with
  | idle => exact h
  | answered c a hc hmemo =>
    simp only [memo_note, memo_put, history_note, history_put, hmemo] at h ⊢
    exact h.append (.answered (.nil _))
  | blocked c request hc hmemo => exact h
  | produced c request hc hmemo =>
    rw [hmemo] at h
    exact h.append (.produced (.nil _))
  | delivered c a hc =>
    rw [hmanned.pending ⟨_, hc⟩] at h
    exact h.append (.delivered (.nil _))
  | initialised c a hc =>
    rw [hmanned.pending ⟨_, hc⟩] at h
    have hdelivered := h.append (.delivered (.nil (some a)))
    exact hdelivered.append (.answered (.nil _))
  | abandoned c request hc =>
    rw [hmanned.pending ⟨_, hc⟩] at h
    exact h.append (.abandoned (.nil _))
  | parted c hc => exact h
  | signalled c isResolved hc => exact h
  | peeked c a hmemo =>
    simp only [memo_note, history_note, hmemo] at h ⊢
    exact h.append (.answered (.nil _))
  | took a hmemo =>
    rw [hmemo] at h
    exact h.append (.took (.nil _))

/-- A caller becomes a producer only where the memo was empty. -/
theorem Turn.empty_of_isProducer (t : s.Turn s') {c : ι} (hno : ¬ s.IsProducer c)
    (hc : s'.IsProducer c) : s.memo = .empty := by
  cases t with
  | idle => exact absurd hc hno
  | answered d a hd hmemo => exact absurd ((isProducer_put_of_ne (by simp) s d c).mp hc).2 hno
  | blocked d request hd hmemo =>
    exact absurd ((isProducer_put_of_ne (by simp) s d c).mp hc).2 hno
  | produced d request hd hmemo => exact hmemo
  | delivered d a hd => exact absurd ((isProducer_put_of_ne (by simp) _ d c).mp hc).2 hno
  | initialised d a hd => exact absurd ((isProducer_put_of_ne (by simp) _ d c).mp hc).2 hno
  | abandoned d request hd => exact absurd ((isProducer_put_of_ne (by simp) _ d c).mp hc).2 hno
  | parted d hd => exact absurd ((isProducer_put_of_ne (by simp) s d c).mp hc).2 hno
  | signalled d isResolved hd =>
    have hput := (isProducer_put_of_ne (by cases isResolved <;> simp) _ d c).mp hc
    exact absurd ((isProducer_wakeAll s c).mp hput.2) hno
  | peeked d a hmemo => exact absurd hc hno
  | took a hmemo => exact absurd hc hno

/-- Whoever looks at an empty memo becomes its only producer. -/
theorem Manned.isProducer_request (h : s.Manned) (hmemo : s.memo = .empty) (c d : ι)
    (request : MemoRequest) : (s.request c request).IsProducer d ↔ d = c := by
  rw [request_of_empty hmemo]
  have hnone := h.not_isProducer (by simp [hmemo])
  exact (isProducer_put_producing _ c d request).trans (or_iff_left (hnone d))

/-- An empty memo stays so until a caller looks at it and becomes its only producer. -/
theorem Manned.next (h : s.Manned) (hmemo : s.memo = .empty) (t : s.Turn s') :
    s'.memo = .empty ∨ ∃ c, s.MayLook c ∧ ∀ d, s'.IsProducer d ↔ d = c := by
  have hnone := h.not_isProducer (by simp [hmemo])
  cases t with
  | idle => exact .inl hmemo
  | answered c a hc hother => exact .inl hmemo
  | blocked c request hc hother => exact .inl hmemo
  | produced c request hc _ =>
    refine .inr ⟨c, hc, fun d => ?_⟩
    rw [← request_of_empty hmemo]
    exact h.isProducer_request hmemo c d request
  | delivered c a hc => exact absurd ⟨_, hc⟩ (hnone c)
  | initialised c a hc => exact absurd ⟨_, hc⟩ (hnone c)
  | abandoned c request hc => exact absurd ⟨_, hc⟩ (hnone c)
  | parted c hc => exact .inl hmemo
  | signalled c isResolved hc => exact .inl hmemo
  | peeked c a hother => exact .inl hmemo
  | took a hother => exact .inl rfl

/-- A producer that delivers does to the memo what `Memo.resolve` does. -/
theorem Manned.memo_deliver (h : s.Manned) {c : ι} (hc : s.IsProducer c) (a : α) :
    (s.act (.deliver c a)).memo = .resolved a ∧ s.memo.resolve a = .resolved a := by
  have hpending := h.pending hc
  obtain ⟨request, hc⟩ := hc
  constructor
  · cases request <;> simp [act, hc]
  · simp [Memo.resolve, Memo.isPending, hpending]

/-- A producer that is dropped does to the memo what `Memo.abandon` does, and leaves no
producer. -/
theorem Manned.memo_drop (h : s.Manned) {c : ι} (hc : s.IsProducer c) :
    (s.act (.drop c)).memo = .empty ∧ s.memo.abandon = .empty ∧
      ∀ d, ¬ (s.act (.drop c)).IsProducer d := by
  have hmanned := h.turn (turn_act s (.drop c))
  have hpending := h.pending hc
  obtain ⟨request, hc⟩ := hc
  have hmemo : (s.act (.drop c)).memo = .empty := by simp [act, hc]
  refine ⟨hmemo, by simp [Memo.abandon, Memo.isPending, hpending], ?_⟩
  exact hmanned.not_isProducer (by simp [hmemo])

omit [DecidableEq ι] in
/-- In a period, at most one value is delivered, all answers tell it, and the `take` that
ends the period takes it. -/
theorem Told.period (h : s.Told) {before period after : List (MemoEvent ι α)}
    (hcut : s.history = before ++ period ++ after)
    (hbefore : before = [] ∨ ∃ earlier a, before = earlier ++ [.took a])
    (htook : ∀ a, .took a ∉ period) :
    ∃ value? : Option α, period.filterMap MemoEvent.delivered? = value?.toList ∧
      (∀ c a, .answered c a ∈ period → value? = some a) ∧
      ∀ a, after.head? = some (.took a) → value? = some a := by
  unfold Told at h
  rw [hcut] at h
  obtain ⟨w, hw, hafter⟩ := h.split
  have hperiod : Tells none period w := by
    rcases hbefore with rfl | ⟨earlier, a, rfl⟩
    · simpa using hw
    · rw [List.append_assoc, List.singleton_append] at hw
      obtain ⟨v, -, hv⟩ := hw.split
      exact hv.of_took.2
  refine ⟨w, by simpa using hperiod.delivered_eq htook, ?_, ?_⟩
  · intro c a ha
    exact hperiod.answered_eq htook ha
  · intro a ha
    obtain ⟨later, rfl⟩ := List.head?_eq_some_iff.mp ha
    exact hafter.of_took.1

end

/-! ## Every run -/

/-- What holds of a memo and its callers between any two actions. -/
structure Orderly (s : MemoCrowd ι α) : Prop where
  manned : s.Manned
  awaited : s.Awaited
  told : s.Told

omit [DecidableEq ι] in
theorem orderly_opened (born : Option α) : (opened born : MemoCrowd ι α).Orderly := by
  cases born with
  | none =>
    constructor
    · simp [Manned, opened, IsProducer]
    · simp [Awaited, opened]
    · exact .nil none
  | some a =>
    constructor
    · simp [Manned, opened, IsProducer]
    · simp [Awaited, opened]
    · exact .delivered (.nil (some a))

theorem Orderly.act {s : MemoCrowd ι α} (h : s.Orderly) (action : MemoAction ι α) :
    (s.act action).Orderly where
  manned := h.manned.turn (turn_act s action)
  awaited := h.awaited.turn (turn_act s action)
  told := h.told.turn h.manned (turn_act s action)

theorem Orderly.acts {s : MemoCrowd ι α} (h : s.Orderly) (actions : List (MemoAction ι α)) :
    (s.acts actions).Orderly := by
  induction actions generalizing s with
  | nil => exact h
  | cons action actions ih => exact ih (h.act action)

/-- A memo is computed at most once. A *period* of its history lies between two `take`s, or
before the first of them, or is a part of such a period from its start. -/
structure ComputesOnce (s : MemoCrowd ι α) : Prop where
  /-- There is at most one producer that has written nothing yet. -/
  one_producer : ∀ c d, s.IsProducer c → s.IsProducer d → c = d
  /-- There is one exactly while the memo is pending. -/
  pending_iff : s.memo = .pending ↔ ∃ c, s.IsProducer c
  /-- At most one value is delivered in a period, and it is the one that callers are given,
  and the one that the `take` at its end takes. -/
  one_value : ∀ before period after, s.history = before ++ period ++ after →
    (before = [] ∨ ∃ earlier a, before = earlier ++ [.took a]) → (∀ a, .took a ∉ period) →
    ∃ value? : Option α, period.filterMap MemoEvent.delivered? = value?.toList ∧
      (∀ c a, .answered c a ∈ period → value? = some a) ∧
      ∀ a, after.head? = some (.took a) → value? = some a
  /-- A caller becomes a producer, and an initialiser starts, only where the memo is
  empty. -/
  starts_empty : ∀ action c, ¬ s.IsProducer c → (s.act action).IsProducer c → s.memo = .empty
  /-- A producer that delivers resolves the memo. -/
  delivers : ∀ c a, s.IsProducer c → (s.act (.deliver c a)).memo = .resolved a
  /-- A producer that is dropped without, as by a crash, leaves the memo empty and without
  a producer. -/
  gives_up : ∀ c, s.IsProducer c →
    (s.act (.drop c)).memo = .empty ∧ ∀ d, ¬ (s.act (.drop c)).IsProducer d
  /-- What is done next to an empty memo leaves it empty, or makes a caller that has just
  come or was woken the only producer. -/
  next : s.memo = .empty → ∀ action,
    (s.act action).memo = .empty ∨
      ∃ c, s.MayLook c ∧ ∀ d, (s.act action).IsProducer d ↔ d = c
  /-- A caller that comes to an empty memo becomes the only producer. -/
  asks : s.memo = .empty → ∀ c request, s.stage c = .away →
    ∀ d, (s.act (.ask c request)).IsProducer d ↔ d = c
  /-- So does one that waited. -/
  looks : s.memo = .empty → ∀ c request, s.stage c = .woken request →
    ∀ d, (s.act (.look c)).IsProducer d ↔ d = c
  /-- Who comes to a pending memo sleeps, and so does who wakes too late. -/
  waits : s.memo = .pending → ∀ c request,
    (s.stage c = .away → (s.act (.ask c request)).stage c = .asleep request) ∧
    (s.stage c = .woken request → (s.act (.look c)).stage c = .asleep request)
  /-- Nobody sleeps unless there is a producer at work or a signal to come. -/
  awaited : ∀ c request, s.stage c = .asleep request →
    (∃ d, s.IsProducer d) ∨ ∃ d isResolved, s.stage d = .signalling isResolved
  /-- A signal wakes everyone. -/
  wakes : ∀ c isResolved, s.stage c = .signalling isResolved →
    ∀ d request, (s.act (.signal c)).stage d ≠ .asleep request
  /-- A `take` does not disturb a producer at work. -/
  take_pending : s.memo = .pending → s.act .take = s

/-- Whatever callers do with a memo, in whatever order, it is computed at most once. -/
theorem memo_is_computed_at_most_once (born : Option α) (actions : List (MemoAction ι α)) :
    ((opened born).acts actions).ComputesOnce := by
  have h : ((opened born).acts actions).Orderly := (orderly_opened born).acts actions
  generalize (opened born).acts actions = s at h
  constructor
  case one_producer =>
    intro c d hc hd
    exact (h.manned.iff_eq hd c).mp hc
  case pending_iff => exact h.manned.pending_iff
  case one_value =>
    intro before period after hcut hbefore htook
    exact h.told.period hcut hbefore htook
  case starts_empty =>
    intro action c hno hc
    exact (turn_act s action).empty_of_isProducer hno hc
  case delivers =>
    intro c a hc
    exact (h.manned.memo_deliver hc a).1
  case gives_up =>
    intro c hc
    obtain ⟨hmemo, -, hnone⟩ := h.manned.memo_drop hc
    exact ⟨hmemo, hnone⟩
  case next =>
    intro hmemo action
    exact h.manned.next hmemo (turn_act s action)
  case asks =>
    intro hmemo c request hc d
    simp only [act, hc]
    exact h.manned.isProducer_request hmemo c d request
  case looks =>
    intro hmemo c request hc d
    simp only [act, hc]
    exact h.manned.isProducer_request hmemo c d request
  case waits =>
    intro hmemo c request
    constructor
    · intro hc
      simp [act, hc, request_of_pending hmemo]
    · intro hc
      simp [act, hc, request_of_pending hmemo]
  case awaited =>
    intro c request hc
    rcases h.awaited c request hc with hpending | hsignal
    · exact .inl (h.manned.pending_iff.mp hpending)
    · exact .inr hsignal
  case wakes =>
    intro c isResolved hc d request
    simp only [act, hc, stage_put]
    split
    · cases isResolved <;> simp
    · exact stage_wakeAll_ne_asleep s d request
  case take_pending =>
    intro hmemo
    exact act_take_of_peek (by simp [hmemo, Memo.peek])

/-- Of two callers the first crashes in its initialiser, and the second, which waited,
takes over. -/
example :
    ((opened none).acts [.ask false .getOrInit, .ask true .start, .take, .drop false,
      .signal false, .look true, .deliver true 7, .peek false, .take, .signal true] :
      MemoCrowd Bool Nat).history =
    [.produced false, .abandoned false .getOrInit, .produced true, .delivered 7, .answered false 7,
      .took 7] := by
  decide

end MemoCrowd

end IncrementalBuild
