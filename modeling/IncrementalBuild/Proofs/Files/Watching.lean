import IncrementalBuild.Files.Watch
import Mathlib.Data.List.Forall2
import Mathlib.Data.List.Induction

/-!
# What a watcher tells of

A watcher is asked to watch paths, told of changes and asked for the changes it was told of, in any
order. Each answer is a matter of what was asked before: paths that are one path have one token, a
change counts if its path is watched, and whoever takes the changes is given each path that changed
since they were last taken, once.

The token of each path and the tokens that wait are those that the exchange so far calls for
(`WatcherRun.Sound`), and each call keeps this.

## Main results

* `Watcher.foldl_collect`: the changes taken at once are those collected one after another.
* `WatcherRun.changes_are_taken_once`: what a watcher answers in a run of calls.
-/

set_option autoImplicit false

namespace IncrementalBuild

theorem Path.same_iff {a b : String} : same a b = true ↔ parts a = parts b := beq_iff_eq

namespace Watcher

/-! ## Tokens -/

theorem token?_congr {p q : String} (w : Watcher) (h : Path.same p q = true) :
    w.token? p = w.token? q := by
  have hsame : (Path.same · p) = (Path.same · q) := by
    funext a
    rw [Path.same, Path.same, Path.same_iff.1 h]
  rw [token?, token?, hsame]

theorem same_of_token? {w : Watcher} {p q : String} {t : FileToken} (hp : w.token? p = some t)
    (hq : w.token? q = some t) : Path.same p q = true := by
  obtain ⟨i, hi, rfl⟩ := Option.map_eq_some_iff.1 hp
  obtain ⟨j, hj, hji⟩ := Option.map_eq_some_iff.1 hq
  obtain rfl : j = i := congrArg FileToken.number hji
  obtain ⟨_, hip, -⟩ := List.findIdx?_eq_some_iff_getElem.1 hi
  obtain ⟨_, hjq, -⟩ := List.findIdx?_eq_some_iff_getElem.1 hj
  exact Path.same_iff.2 ((Path.same_iff.1 hip).symm.trans (Path.same_iff.1 hjq))

/-- A path that is watched is found under its token, and every other one as before. -/
theorem token?_subscribe (w : Watcher) (p q : String) :
    (w.subscribe p).2.token? q =
      if Path.same p q then some (w.subscribe p).1 else w.token? q := by
  unfold subscribe
  cases hp : w.token? p with
  | some t =>
    dsimp only
    split
    · rename_i hsame
      rw [← w.token?_congr hsame, hp]
    · rfl
  | none =>
    dsimp only
    rw [token?, List.findIdx?_append, List.findIdx?_singleton]
    split
    · rename_i hsame
      have hnone : w.paths.findIdx? (Path.same · q) = none := by
        rw [w.token?_congr hsame] at hp
        exact Option.map_eq_none_iff.1 hp
      rw [hnone]
      simp
    · rw [Option.map_none, Option.or_none, token?]

theorem subscribe_of_token? {w : Watcher} {p : String} {t : FileToken} (h : w.token? p = some t) :
    w.subscribe p = (t, w) := by
  rw [subscribe, h]

theorem touch_of_token? {w : Watcher} {p : String} {t : FileToken} (h : w.token? p = some t) :
    w.touch p = (true, { w with queue := w.queue ++ [t] }) := by
  rw [touch, h]

theorem touch_of_token?_eq_none {w : Watcher} {p : String} (h : w.token? p = none) :
    w.touch p = (false, w) := by
  rw [touch, h]

/-! ## Each token once -/

/-- Each of some tokens once, in the order in which they first occur. -/
structure FirstsOf (tokens all : List FileToken) : Prop where
  nodup : tokens.Nodup
  mem_iff : ∀ t, t ∈ tokens ↔ t ∈ all
  inOrder : tokens.Pairwise fun s t => all.idxOf s < all.idxOf t

/-- Adds a token that is taken out of the queue to those taken before it. -/
def collect (tokens : List FileToken) (t : FileToken) : List FileToken :=
  if t ∈ tokens then tokens else tokens ++ [t]

variable {tokens all : List FileToken}

theorem FirstsOf.collect (h : FirstsOf tokens all) (t : FileToken) :
    FirstsOf (collect tokens t) (all ++ [t]) := by
  have hidx {s : FileToken} (hs : s ∈ tokens) : (all ++ [t]).idxOf s = all.idxOf s :=
    List.idxOf_append_of_mem ((h.mem_iff s).1 hs)
  have hbefore : tokens.Pairwise fun s u => (all ++ [t]).idxOf s < (all ++ [t]).idxOf u := by
    refine h.inOrder.imp_of_mem fun hs hu hlt => ?_
    rwa [hidx hs, hidx hu]
  unfold Watcher.collect
  split
  · rename_i ht
    refine ⟨h.nodup, fun s => ?_, hbefore⟩
    rw [List.mem_append, ← h.mem_iff, List.mem_singleton]
    exact ⟨.inl, fun hs => hs.elim id fun hs => hs ▸ ht⟩
  · rename_i ht
    have hnodup : (tokens ++ [t]).Nodup := List.nodup_append.2
      ⟨h.nodup, by simp, by simpa using fun s hs => ne_of_mem_of_not_mem hs ht⟩
    refine ⟨hnodup, fun s => ?_, List.pairwise_append.2 ⟨hbefore, by simp, ?_⟩⟩
    · rw [List.mem_append, List.mem_append, h.mem_iff]
    · intro s hs u hu
      obtain rfl := List.mem_singleton.1 hu
      have hnew : u ∉ all := fun hu => ht ((h.mem_iff u).2 hu)
      rw [hidx hs, List.idxOf_append_of_notMem hnew]
      have hlt := List.idxOf_lt_length_of_mem ((h.mem_iff s).1 hs)
      omega

theorem FirstsOf.foldl_collect (h : FirstsOf tokens all) (more : List FileToken) :
    FirstsOf (more.foldl Watcher.collect tokens) (all ++ more) := by
  induction more generalizing tokens all with
  | nil => rwa [List.append_nil]
  | cons t more ih =>
    rw [List.append_cons]
    exact ih (h.collect t)

/-- Tokens collected one after another add those that are new, each at its first place. -/
theorem foldl_collect (tokens more : List FileToken) :
    more.foldl collect tokens = tokens ++ (distinct more).filter (· ∉ tokens) := by
  induction more generalizing tokens with
  | nil => simp [distinct]
  | cons t more ih =>
    rw [List.foldl_cons, ih, distinct, collect]
    split
    · rename_i ht
      rw [List.filter_cons_of_neg (by simpa using ht), List.filter_filter]
      congr 1
      refine List.filter_congr fun s _ => ?_
      have hne : s ∉ tokens → s ≠ t := fun hs heq => hs (heq ▸ ht)
      simpa using hne
    · rename_i ht
      rw [List.filter_cons_of_pos (by simpa using ht), List.filter_filter, List.append_assoc,
        List.singleton_append]
      congr 2
      exact List.filter_congr fun s _ => Bool.eq_iff_iff.2 (by simp)

theorem distinct_eq_foldl (tokens : List FileToken) :
    distinct tokens = tokens.foldl collect [] := by
  simp [foldl_collect]

theorem firstsOf_distinct (tokens : List FileToken) : FirstsOf (distinct tokens) tokens := by
  have hnil : FirstsOf [] [] := ⟨List.nodup_nil, fun _ => Iff.rfl, .nil⟩
  rw [distinct_eq_foldl]
  exact hnil.foldl_collect tokens

/-- Whoever takes the first change out of the queue and then collects the others, one after
another, has what is taken at once. -/
theorem takeChanges_eq {w : Watcher} {first : FileToken} {rest : List FileToken}
    (h : w.queue = first :: rest) :
    w.takeChanges = (rest.foldl collect [first], { w with queue := [] }) := by
  rw [takeChanges, h, distinct_eq_foldl]
  rfl

theorem nodup_distinct (tokens : List FileToken) : (distinct tokens).Nodup :=
  (firstsOf_distinct tokens).nodup

theorem mem_distinct {t : FileToken} : t ∈ distinct tokens ↔ t ∈ tokens :=
  (firstsOf_distinct tokens).mem_iff t

end Watcher

/-! ## Calls and answers -/

/-- What is asked of a watcher. -/
inductive WatcherCall where
  | subscribe (path : String)
  | touch (path : String)
  | take
  deriving DecidableEq

/-- What is asked of a watcher, with the answer. -/
inductive WatcherExchange where
  | subscribe (path : String) (token : FileToken)
  | touch (path : String) (accepted : Bool)
  | take (changes : List FileToken)
  deriving DecidableEq

namespace WatcherExchange

/-- What is asked. -/
def call : WatcherExchange → WatcherCall
  | .subscribe path _ => .subscribe path
  | .touch path _ => .touch path
  | .take _ => .take

/-- The path of a change that is accepted. -/
def changed? : WatcherExchange → Option String
  | .touch path true => some path
  | _ => none

/-- In some exchanges, the token of a path is told to whoever asks to watch it. -/
def Names (history : List WatcherExchange) (path : String) (token : FileToken) : Prop :=
  ∃ other, .subscribe other token ∈ history ∧ Path.same other path = true

/-- Of some exchanges, `since` are those after the changes were last taken. -/
structure IsSince (history since : List WatcherExchange) : Prop where
  suffix : ∃ before, history = before ++ since ∧
    (before = [] ∨ ∃ changes, before.getLast? = some (.take changes))
  noTake : ∀ changes, .take changes ∉ since

variable {history since : List WatcherExchange} {x : WatcherExchange} {p : String} {t : FileToken}

theorem Names.append (h : Names history p t) (more : List WatcherExchange) :
    Names (history ++ more) p t := by
  obtain ⟨q, hq, hsame⟩ := h
  exact ⟨q, List.mem_append_left _ hq, hsame⟩

theorem names_concat_subscribe {q : String} {s : FileToken} :
    Names (history ++ [.subscribe q s]) p t ↔ Names history p t ∨ t = s ∧ Path.same q p = true := by
  simp only [Names, List.mem_append, List.mem_singleton, subscribe.injEq]
  constructor
  · rintro ⟨other, hother | ⟨rfl, rfl⟩, hsame⟩
    · exact .inl ⟨other, hother, hsame⟩
    · exact .inr ⟨rfl, hsame⟩
  · rintro (⟨other, hother, hsame⟩ | ⟨rfl, hsame⟩)
    · exact ⟨other, .inl hother, hsame⟩
    · exact ⟨q, .inr ⟨rfl, rfl⟩, hsame⟩

theorem names_concat (h : ∀ q s, x ≠ .subscribe q s) :
    Names (history ++ [x]) p t ↔ Names history p t := by
  simp only [Names, List.mem_append, List.mem_singleton, (h _ _).symm, or_false]

theorem IsSince.concat (h : IsSince history since) (hx : ∀ changes, x ≠ .take changes) :
    IsSince (history ++ [x]) (since ++ [x]) := by
  obtain ⟨⟨before, rfl, hbefore⟩, hno⟩ := h
  refine ⟨⟨before, by rw [List.append_assoc], hbefore⟩, fun changes hmem => ?_⟩
  rcases List.mem_append.1 hmem with hmem | hmem
  · exact hno changes hmem
  · exact hx changes (List.mem_singleton.1 hmem).symm

theorem isSince_take (history : List WatcherExchange) (changes : List FileToken) :
    IsSince (history ++ [.take changes]) [] :=
  ⟨⟨_, (List.append_nil _).symm, .inr ⟨changes, List.getLast?_concat⟩⟩, by simp⟩

/-- An answer is right after some exchanges. -/
def RightAfter (history : List WatcherExchange) : WatcherExchange → Prop
  | .subscribe q t => ∀ p s, .subscribe p s ∈ history → (s = t ↔ Path.same p q = true)
  | .touch q accepted => accepted = true ↔ ∃ p t, .subscribe p t ∈ history ∧ Path.same p q = true
  | .take changes => ∃ since touched, IsSince history since ∧
      List.Forall₂ (Names history) (since.filterMap changed?) touched ∧
      Watcher.FirstsOf changes touched

end WatcherExchange

open WatcherExchange

/-- A watcher at work, with what it was asked and answered so far. -/
structure WatcherRun where
  watcher : Watcher := {}
  history : List WatcherExchange := []

namespace WatcherRun

/-- Answers a call. -/
def serve (r : WatcherRun) : WatcherCall → WatcherRun
  | .subscribe p =>
    { watcher := (r.watcher.subscribe p).2
      history := r.history ++ [.subscribe p (r.watcher.subscribe p).1] }
  | .touch p =>
    { watcher := (r.watcher.touch p).2
      history := r.history ++ [.touch p (r.watcher.touch p).1] }
  | .take =>
    { watcher := r.watcher.takeChanges.2
      history := r.history ++ [.take r.watcher.takeChanges.1] }

/-- A new watcher after a run of calls. -/
def run (calls : List WatcherCall) : WatcherRun := calls.foldl serve {}

/-- The watcher knows the tokens that were told, the changes since the last that were taken wait in
its queue, and all its answers were right. -/
structure Sound (r : WatcherRun) : Prop where
  names : ∀ p t, r.watcher.token? p = some t ↔ Names r.history p t
  queue : ∃ since, IsSince r.history since ∧
    List.Forall₂ (Names r.history) (since.filterMap changed?) r.watcher.queue
  right : ∀ before x after, r.history = before ++ x :: after → RightAfter before x

variable {r : WatcherRun} {p : String}

/-- An answer that is right keeps all answers right. -/
theorem Sound.right_concat {x : WatcherExchange} (h : r.Sound) (hx : RightAfter r.history x)
    (before : List WatcherExchange) (y : WatcherExchange) (after : List WatcherExchange)
    (heq : r.history ++ [x] = before ++ y :: after) : RightAfter before y := by
  rcases List.eq_nil_or_concat after with rfl | ⟨after, z, rfl⟩
  · obtain ⟨rfl, rfl⟩ := List.append_singleton_inj.1 heq
    exact hx
  · rw [List.concat_eq_append, ← List.cons_append, ← List.append_assoc] at heq
    exact h.right before y after (List.append_singleton_inj.1 heq).1

theorem Sound.subscribe (h : r.Sound) (p : String) : (r.serve (.subscribe p)).Sound := by
  obtain ⟨since, hsince, hqueue⟩ := h.queue
  have hnames (q : String) (t : FileToken) : (r.watcher.subscribe p).2.token? q = some t ↔
      Names (r.history ++ [.subscribe p (r.watcher.subscribe p).1]) q t := by
    rw [Watcher.token?_subscribe, names_concat_subscribe, ← h.names]
    split
    · rename_i hsame
      rw [← r.watcher.token?_congr hsame]
      constructor
      · intro heq
        exact .inr ⟨(Option.some.inj heq).symm, hsame⟩
      · rintro (htoken | ⟨rfl, -⟩)
        · rw [Watcher.subscribe_of_token? htoken]
        · rfl
    · rename_i hsame
      simp [hsame]
  have hwaits : (r.watcher.subscribe p).2.queue = r.watcher.queue := by
    unfold Watcher.subscribe
    split <;> rfl
  refine ⟨hnames, ⟨since ++ [_], hsince.concat (fun _ => nofun), ?_⟩, h.right_concat ?_⟩
  · have hqueue' : List.Forall₂ (Names (r.serve (.subscribe p)).history)
        (since.filterMap changed?) r.watcher.queue := hqueue.imp fun _ _ hname => hname.append _
    rw [List.filterMap_append, List.filterMap_cons_none rfl, List.filterMap_nil, List.append_nil]
    exact hwaits ▸ hqueue'
  · intro q s hq
    have hs := (hnames q s).2 ⟨q, List.mem_append_left _ hq, Path.same_iff.2 rfl⟩
    have hp := (hnames p _).2 ⟨p, List.mem_append_right _ (List.mem_singleton_self _),
      Path.same_iff.2 rfl⟩
    constructor
    · rintro rfl
      exact Watcher.same_of_token? hs hp
    · intro hsame
      rw [Watcher.token?_congr _ hsame, hp] at hs
      exact (Option.some.inj hs).symm

theorem Sound.touch (h : r.Sound) (p : String) : (r.serve (.touch p)).Sound := by
  obtain ⟨since, hsince, hqueue⟩ := h.queue
  have hnames (accepted : Bool) (q : String) (t : FileToken) :
      Names (r.history ++ [.touch p accepted]) q t ↔ Names r.history q t :=
    names_concat fun _ _ => nofun
  have hqueue' (accepted : Bool) := hqueue.imp fun q t => (hnames accepted q t).2
  rw [WatcherRun.serve]
  cases hp : r.watcher.token? p with
  | some t =>
    rw [Watcher.touch_of_token? hp]
    obtain ⟨q, hq, hsame⟩ := (h.names p t).1 hp
    refine ⟨fun q s => (h.names q s).trans (hnames true q s).symm,
      ⟨since ++ [_], hsince.concat (fun _ => nofun), ?_⟩,
      h.right_concat ⟨fun _ => ⟨q, t, hq, hsame⟩, fun _ => rfl⟩⟩
    rw [List.filterMap_append]
    exact List.rel_append (hqueue' true)
      (.cons ((hnames true p t).2 ⟨q, hq, hsame⟩) .nil)
  | none =>
    rw [Watcher.touch_of_token?_eq_none hp]
    refine ⟨fun q s => (h.names q s).trans (hnames false q s).symm,
      ⟨since ++ [_], hsince.concat (fun _ => nofun), ?_⟩, h.right_concat ⟨nofun, ?_⟩⟩
    · rw [List.filterMap_append, List.filterMap_cons_none rfl, List.filterMap_nil, List.append_nil]
      exact hqueue' false
    · rintro ⟨q, s, hq, hsame⟩
      have hs := (h.names p s).2 ⟨q, hq, hsame⟩
      rw [hp] at hs
      cases hs

theorem Sound.take (h : r.Sound) : (r.serve .take).Sound := by
  obtain ⟨since, hsince, hqueue⟩ := h.queue
  have hnames (q : String) (t : FileToken) :
      Names (r.history ++ [.take r.watcher.takeChanges.1]) q t ↔ Names r.history q t :=
    names_concat fun _ _ => nofun
  exact ⟨fun q t => (h.names q t).trans (hnames q t).symm, ⟨[], isSince_take _ _, .nil⟩,
    h.right_concat ⟨since, _, hsince, hqueue, Watcher.firstsOf_distinct _⟩⟩

theorem Sound.serve (h : r.Sound) (c : WatcherCall) : (r.serve c).Sound := by
  cases c with
  | subscribe p => exact h.subscribe p
  | touch p => exact h.touch p
  | take => exact h.take

theorem sound_run (calls : List WatcherCall) : (run calls).Sound := by
  have hnew : ({} : WatcherRun).Sound := by
    refine ⟨fun p t => ?_, ⟨[], ⟨⟨[], rfl, .inl rfl⟩, by simp⟩, .nil⟩, by simp⟩
    simp [Watcher.token?, Names]
  exact List.foldlRecOn calls serve hnew fun _ hr c _ => hr.serve c

theorem run_concat (calls : List WatcherCall) (c : WatcherCall) :
    run (calls ++ [c]) = (run calls).serve c := List.foldl_append

theorem history_serve (r : WatcherRun) (c : WatcherCall) :
    (r.serve c).history.map call = r.history.map call ++ [c] := by
  cases c <;> simp [serve, call]

theorem calls_run (calls : List WatcherCall) : (run calls).history.map call = calls := by
  induction calls using List.reverseRecOn with
  | nil => rfl
  | append_singleton calls c ih => rw [run_concat, history_serve, ih]

/-- In a run of calls, two requests to watch a path are answered with one token exactly when the
paths are one path; a change is accepted exactly when its path was asked for before; and whoever
takes the changes is given the tokens of the changes accepted since they were last taken, each once
and in the order of the first change of each, and leaves none. -/
theorem changes_are_taken_once (calls : List WatcherCall) :
    (run calls).history.map call = calls ∧
    (∀ before q t after, (run calls).history = before ++ .subscribe q t :: after →
      ∀ p s, .subscribe p s ∈ before → (s = t ↔ Path.same p q = true)) ∧
    (∀ before q accepted after, (run calls).history = before ++ .touch q accepted :: after →
      (accepted = true ↔ ∃ p t, .subscribe p t ∈ before ∧ Path.same p q = true)) ∧
    (∀ before changes after, (run calls).history = before ++ .take changes :: after →
      ∃ since touched, IsSince before since ∧
        List.Forall₂ (Names before) (since.filterMap changed?) touched ∧
        Watcher.FirstsOf changes touched) ∧
    (run (calls ++ [.take])).watcher.queue = [] := by
  have hright := (sound_run calls).right
  refine ⟨calls_run calls, fun before q t after => hright before (.subscribe q t) after,
    fun before q accepted after => hright before (.touch q accepted) after,
    fun before changes after => hright before (.take changes) after, ?_⟩
  rw [run_concat]
  rfl

-- two spellings of one path have one token, and a path that changes twice is taken once
example : (run [.subscribe "a/b", .subscribe "c", .touch "c", .touch "d", .touch "a//b", .touch "c",
    .take]).history.getLast? = some (.take [⟨1⟩, ⟨0⟩]) := by
  cbv

end WatcherRun

end IncrementalBuild
