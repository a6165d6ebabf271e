import IncrementalBuild.Task.Join
import Mathlib.Data.List.Flatten
import Mathlib.Data.List.Perm.Basic
import Mathlib.Logic.Function.Iterate

/-!
# Joins run level by level

Whatever units a batch has, one worker that takes them from the front of the line runs
them in level order: the roots, then the children of each unit in the order in which their
parents ran. While it works, the units that ran and those in the line are the roots and
the children of those that ran, and the books tell how many they are and what failed.
-/

set_option autoImplicit false

namespace IncrementalBuild

namespace WorkUnit

/-! ## Level order -/

/-- The children of some units, in order. -/
def nextLevel (forest : List WorkUnit) : List WorkUnit := forest.flatMap children

@[simp] theorem nextLevel_nil : nextLevel [] = [] := rfl

@[simp] theorem nextLevel_append (forest more : List WorkUnit) :
    nextLevel (forest ++ more) = nextLevel forest ++ nextLevel more := by
  simp [nextLevel]

/-- A level down, the forest has lost its roots. -/
theorem count_nextLevel (forest : List WorkUnit) :
    count (nextLevel forest) + forest.length = count forest := by
  induction forest with
  | nil => simp [count]
  | cons u forest ih =>
    have hcons : nextLevel (u :: forest) = u.children ++ nextLevel forest := rfl
    rw [hcons, count_append, count_cons, List.length_cons]
    omega

/-- The units of a forest level by level. -/
def levelOrder (forest : List WorkUnit) : List WorkUnit :=
  if forest = [] then [] else forest ++ levelOrder (nextLevel forest)
termination_by count forest
decreasing_by
  have hcount := count_nextLevel forest
  have hlength : 0 < forest.length := List.length_pos_iff.mpr ‹_›
  omega

/-- In level order the roots stand first, then the children of each unit in the order in
which their parents stand. -/
theorem levelOrder_eq (forest : List WorkUnit) :
    levelOrder forest = forest ++ nextLevel (levelOrder forest) := by
  fun_induction levelOrder forest with
  | case1 => simp
  | case2 forest hne ih => rw [nextLevel_append, ← ih]

/-- No other order does. -/
theorem eq_levelOrder {forest order : List WorkUnit} (h : order = forest ++ nextLevel order) :
    order = levelOrder forest := by
  fun_induction levelOrder forest generalizing order with
  | case1 =>
    have hcount := count_nextLevel order
    rw [List.nil_append] at h
    rw [← h] at hcount
    exact List.length_eq_zero_iff.mp (by omega)
  | case2 forest hne ih =>
    have hnext : nextLevel order = nextLevel forest ++ nextLevel (nextLevel order) := by
      conv_lhs => rw [h]
      rw [nextLevel_append]
    rw [← ih hnext]
    exact h

/-- Level order has every unit of the forest, and each as often as the forest has it. -/
theorem levelOrder_perm (forest : List WorkUnit) :
    (levelOrder forest).Perm (forest.flatMap units) := by
  fun_induction levelOrder forest with
  | case1 => simp
  | case2 forest hne ih =>
    have hunits : ∀ u : WorkUnit, [u] ++ u.children.flatMap units = u.units := by
      rintro ⟨id, children, outcome⟩
      simp only [units, WorkUnit.children, List.singleton_append]
    have hperm := List.flatMap_append_perm forest (fun u => [u]) fun u => u.children.flatMap units
    have hnext : (nextLevel forest).flatMap units =
        forest.flatMap fun u => u.children.flatMap units := List.flatMap_assoc
    simp only [hunits, List.flatMap_singleton'] at hperm
    rw [hnext] at ih
    exact (ih.append_left forest).trans hperm

theorem length_levelOrder (forest : List WorkUnit) :
    (levelOrder forest).length = count forest :=
  (levelOrder_perm forest).length_eq

/-- The error a unit ends with in a group. -/
def error? (group : String) (u : WorkUnit) : Option BuildError := u.outcome.error? group

end WorkUnit

namespace TaskGroup

open WorkUnit (nextLevel levelOrder count)

/-! ## A batch under way -/

/-- The batch `forest` is under way: the units of `ran` have run, in that order. -/
structure Partway (group : String) (forest ran : List WorkUnit) (g : OfUnits) : Prop where
  /-- Those that ran and those in the line are the roots and the children of those that
  ran. -/
  order : ran ++ g.line = forest ++ nextLevel ran
  log : g.state = ran.map WorkUnit.id
  pending : g.books.pending = g.line.length
  spawned : g.books.spawned = ran.length + g.line.length
  failures : g.books.failures = (ran.filterMap (WorkUnit.error? group)).length
  firstError : g.books.firstError = ran.findSome? (WorkUnit.error? group)

namespace Partway

variable {group : String} {forest ran : List WorkUnit} {g : OfUnits}

/-- The unit at the front of the line runs. -/
theorem work (h : Partway group forest ran g) {u : WorkUnit} {rest : List WorkUnit}
    (hline : g.line = u :: rest) :
    Partway group forest (ran ++ [u]) (g.work group WorkUnit.run) := by
  have hwork : g.work group WorkUnit.run =
      { state := g.state ++ [u.id]
        line := rest ++ u.children
        books := { g.books with
          pending := g.books.pending + u.children.length
          spawned := g.books.spawned + u.children.length }.finish (u.error? group) } := by
    obtain ⟨id, children, outcome⟩ := u
    simp [TaskGroup.work, hline, WorkUnit.run, foldl_spawn, WorkUnit.children, WorkUnit.id,
      WorkUnit.error?, WorkUnit.outcome]
  have hpending := h.pending
  have hspawned := h.spawned
  rw [hline, List.length_cons] at hpending hspawned
  rw [hwork]
  refine ⟨?_, ?_, ?_, ?_, ?_, ?_⟩
  · have horder := h.order
    rw [hline] at horder
    calc ran ++ [u] ++ (rest ++ u.children)
        = ran ++ u :: rest ++ u.children := by simp
      _ = forest ++ nextLevel (ran ++ [u]) := by simp [horder, nextLevel]
  · simp [h.log]
  · simp only [GroupBooks.finish, List.length_append]
    omega
  · simp only [GroupBooks.finish, List.length_append, List.length_singleton]
    omega
  · cases hu : u.error? group <;> simp [GroupBooks.finish, h.failures, hu]
  · simp [GroupBooks.finish, h.firstError, List.findSome?_append]

/-- However long the worker works, the batch is under way. -/
theorem iterate (h : Partway group forest ran g) (n : Nat) :
    ∃ ran, Partway group forest ran ((TaskGroup.work group WorkUnit.run)^[n] g) := by
  induction n generalizing ran g with
  | zero => exact ⟨ran, h⟩
  | succ n ih =>
    rw [Function.iterate_succ_apply]
    cases hline : g.line with
    | nil =>
      have hidle : g.work group WorkUnit.run = g := by simp [TaskGroup.work, hline]
      rw [hidle]
      exact ih h
    | cons u rest => exact ih (h.work hline)

/-- The worker ends with an empty line. -/
theorem await (h : Partway group forest ran g) :
    ∃ order, Partway group forest order (g.await group) ∧ (g.await group).line = [] := by
  fun_induction TaskGroup.await group g generalizing ran with
  | case1 g hpending hline => exact ⟨ran, h, hline⟩
  | case2 g hpending u rest hline ih => exact ih (h.work hline)
  | case3 g hpending =>
    have hlength := h.pending
    exact ⟨ran, h, List.length_eq_zero_iff.mp (by omega)⟩

/-- When the line is empty, the batch has run in level order. -/
theorem eq_levelOrder (h : Partway group forest ran g) (hline : g.line = []) :
    ran = levelOrder forest := by
  have horder := h.order
  rw [hline, List.append_nil] at horder
  exact WorkUnit.eq_levelOrder horder

/-- A batch that is spawned into a group where nothing is left of an earlier one. -/
theorem spawned_batch (group : String) (forest : List WorkUnit) :
    Partway group forest [] (forest.foldl spawn { state := [] }) := by
  rw [foldl_spawn]
  constructor <;> simp

end Partway

/-- What a join returns after units that ran in this order. -/
def answerOf (group : String) (order : List WorkUnit) : Except BuildError Nat :=
  match order.findSome? (WorkUnit.error? group) with
  | some e => .error e
  | none => .ok order.length

/-- A join returns it when the books are those of such units. -/
theorem join_eq_answerOf {group : String} {b : GroupBooks} {order : List WorkUnit}
    (hspawned : b.spawned = order.length)
    (hfirst : b.firstError = order.findSome? (WorkUnit.error? group)) :
    b.join.1 = answerOf group order := by
  unfold GroupBooks.join answerOf
  cases herror : b.firstError with
  | none =>
    rw [herror] at hfirst
    simp [← hfirst, hspawned]
  | some e =>
    rw [herror] at hfirst
    simp [← hfirst]

/-- A batch spawned into a group where nothing is left of an earlier one, which leaves
nothing either. -/
theorem runBatch_eq (group : String) {g : OfUnits} (hline : g.line = []) (hbooks : g.books = {})
    (forest : List WorkUnit) :
    g.runBatch group forest =
      ({ answer := answerOf group (levelOrder forest)
         log := (levelOrder forest).map WorkUnit.id
         pending := 0 },
       { state := (levelOrder forest).map WorkUnit.id }) := by
  have hfresh : ({ g with state := [] } : OfUnits) = { state := [] } := by
    rw [hline, hbooks]
  obtain ⟨order, hpart, hempty⟩ := (Partway.spawned_batch group forest).await
  obtain rfl := hpart.eq_levelOrder hempty
  unfold runBatch
  rw [hfresh]
  generalize (forest.foldl spawn { state := [] }).await group = g' at hpart hempty
  obtain ⟨log, line, pending, spawned, failures, firstError⟩ := g'
  simp only at hempty
  subst hempty
  obtain ⟨-, hlog, hpending, hspawned, -, hfirst⟩ := hpart
  simp only [List.length_nil, Nat.add_zero] at hlog hpending hspawned hfirst
  subst hlog hpending hspawned hfirst
  rfl

theorem runBatches_eq (group : String) {g : OfUnits} (hline : g.line = []) (hbooks : g.books = {})
    (batches : List (List WorkUnit)) :
    (g.runBatches group batches).1 = batches.map (fun forest =>
        { answer := answerOf group (levelOrder forest)
          log := (levelOrder forest).map WorkUnit.id
          pending := 0 }) ∧
      (g.runBatches group batches).2.line = [] ∧ (g.runBatches group batches).2.books = {} := by
  induction batches generalizing g with
  | nil => exact ⟨rfl, hline, hbooks⟩
  | cons forest batches ih =>
    have hbatch := runBatch_eq group hline hbooks forest
    obtain ⟨hlater, hline', hbooks'⟩ := ih (congrArg (fun x => x.2.line) hbatch)
      (congrArg (fun x => x.2.books) hbatch)
    refine ⟨?_, hline', hbooks'⟩
    rw [List.map_cons, ← hlater]
    simp only [runBatches, hbatch]

end TaskGroup

/-! ## Groups that run level by level -/

namespace GroupRun

variable {σ τ : Type} {group : String} {run : τ → σ → TaskStep σ τ}

/-- The group that a run has come to, with its line and its books. -/
def toGroup (r : GroupRun σ τ) : TaskGroup σ τ where
  state := r.state
  line := r.waiting
  books :=
    { pending := r.waiting.length
      spawned := r.ran + r.waiting.length
      failures := r.errors.length
      firstError := r.errors.head? }

/-- The worker runs a task as a run does. -/
theorem work_toGroup (r : GroupRun σ τ) (task : τ) (rest : List τ) :
    ({ r with waiting := task :: rest } : GroupRun σ τ).toGroup.work group run =
      (({ r with waiting := rest } : GroupRun σ τ).step group run task).toGroup := by
  simp only [TaskGroup.work, toGroup, step, TaskGroup.foldl_spawn, GroupBooks.finish,
    TaskGroup.mk.injEq, GroupBooks.mk.injEq, List.length_append, List.length_cons,
    List.head?_append, true_and]
  refine ⟨by omega, by omega, ?_⟩
  cases (run task r.state).outcome.error? group <;> simp

/-- The worker runs the tasks of a level as a run does, whatever waits behind them. -/
theorem work_foldl_step (tasks behind : List τ) (r : GroupRun σ τ) :
    (TaskGroup.work group run)^[tasks.length]
        ({ r with waiting := tasks ++ behind } : GroupRun σ τ).toGroup =
      (tasks.foldl (step group run) { r with waiting := behind }).toGroup := by
  induction tasks generalizing r behind with
  | nil => rfl
  | cons task tasks ih =>
    rw [List.length_cons, Function.iterate_succ_apply, List.cons_append, work_toGroup,
      List.foldl_cons]
    have hstep : ({ r with waiting := tasks ++ behind } : GroupRun σ τ).step group run task =
        { ({ r with waiting := behind } : GroupRun σ τ).step group run task with
          waiting := tasks ++ (behind ++ (run task r.state).spawned) } := by
      simp [step]
    rw [hstep, ih]
    rfl

/-- A run that drains its tasks level by level does what a worker does that takes them from
the front of the line. -/
theorem exists_work_drain (depth : Nat) (r : GroupRun σ τ) :
    ∃ n, (TaskGroup.work group run)^[n] r.toGroup = (drain group run depth r).toGroup := by
  induction depth generalizing r with
  | zero => exact ⟨0, rfl⟩
  | succ depth ih =>
    rw [drain]
    split
    · exact ⟨0, rfl⟩
    · obtain ⟨n, hn⟩ := ih (r.level group run)
      refine ⟨n + r.waiting.length, ?_⟩
      have hlevel := @work_foldl_step _ _ group run r.waiting [] r
      rw [List.append_nil] at hlevel
      rw [Function.iterate_add_apply, ← hn]
      exact congrArg _ hlevel

/-- Joining the group returns the verdict of the run. -/
theorem join_toGroup {r : GroupRun σ τ} (h : r.waiting = []) :
    r.toGroup.books.join = (r.verdict, {}) := by
  obtain ⟨state, waiting, ran, errors⟩ := r
  simp only at h
  subst h
  cases errors <;> rfl

end GroupRun

namespace WorkUnit

theorem start_le_foldl_max (ns : List Nat) (start : Nat) : start ≤ ns.foldl max start := by
  induction ns generalizing start with
  | nil => exact Nat.le_refl start
  | cons m ns ih => exact Nat.le_trans (Nat.le_max_left start m) (ih (max start m))

theorem le_foldl_max {n : Nat} {ns : List Nat} (h : n ∈ ns) (start : Nat) :
    n ≤ ns.foldl max start := by
  induction ns generalizing start with
  | nil => simp at h
  | cons m ns ih =>
    rcases List.mem_cons.mp h with rfl | h
    · exact Nat.le_trans (Nat.le_max_right start n) (start_le_foldl_max ns (max start n))
    · exact ih h (max start m)

theorem depth_lt_of_mem_children {u v : WorkUnit} (h : v ∈ u.children) : v.depth < u.depth := by
  obtain ⟨id, children, outcome⟩ := u
  have hle := le_foldl_max (List.mem_map_of_mem (f := depth) h) 0
  rw [depth]
  exact Nat.lt_succ_of_le hle

/-- A level leaves the children of its units to run. -/
theorem waiting_foldl_step {group : String} (forest : List WorkUnit)
    (r : GroupRun (List String) WorkUnit) :
    (forest.foldl (GroupRun.step group run) r).waiting = r.waiting ++ nextLevel forest := by
  induction forest generalizing r with
  | nil => simp
  | cons u forest ih =>
    obtain ⟨id, children, outcome⟩ := u
    rw [List.foldl_cons, ih]
    simp [GroupRun.step, run, nextLevel, WorkUnit.children]

/-- As many levels as the deepest unit has are enough. -/
theorem waiting_drain {group : String} {depth : Nat} {r : GroupRun (List String) WorkUnit}
    (h : ∀ u ∈ r.waiting, u.depth ≤ depth) :
    (GroupRun.drain group run depth r).waiting = [] := by
  induction depth generalizing r with
  | zero =>
    have hnone : ∀ u, u ∉ r.waiting := by
      rintro ⟨id, children, outcome⟩ hu
      have hle := h _ hu
      rw [WorkUnit.depth] at hle
      omega
    exact List.eq_nil_iff_forall_not_mem.mpr hnone
  | succ depth ih =>
    rw [GroupRun.drain]
    split
    · next hempty => exact List.isEmpty_iff.mp hempty
    · apply ih
      intro v hv
      rw [GroupRun.level, waiting_foldl_step, List.nil_append, nextLevel,
        List.mem_flatMap] at hv
      obtain ⟨u, hu, hv⟩ := hv
      have hu := h u hu
      have hv := depth_lt_of_mem_children hv
      omega

/-- Running all units of a forest runs them in level order, and its verdict is what joining
a group of them returns. -/
theorem runAll_eq (group : String) (forest : List WorkUnit) :
    (runAll group forest).state = (levelOrder forest).map id ∧
      (runAll group forest).waiting = [] ∧
      (runAll group forest).verdict = TaskGroup.answerOf group (levelOrder forest) := by
  have hwaiting : (runAll group forest).waiting = [] := by
    apply waiting_drain
    intro u hu
    exact le_foldl_max (List.mem_map_of_mem hu) 0
  have hstart : ({ state := [], waiting := forest } :
      GroupRun (List String) WorkUnit).toGroup = forest.foldl TaskGroup.spawn { state := [] } := by
    simp [TaskGroup.foldl_spawn, GroupRun.toGroup]
  obtain ⟨n, hn⟩ := @GroupRun.exists_work_drain _ _ group run
    ((forest.map depth).foldl max 0) { state := [], waiting := forest }
  obtain ⟨order, hpart⟩ := (TaskGroup.Partway.spawned_batch group forest).iterate n
  rw [← hstart, hn] at hpart
  change TaskGroup.Partway group forest order (runAll group forest).toGroup at hpart
  obtain rfl := hpart.eq_levelOrder hwaiting
  refine ⟨hpart.log, hwaiting, ?_⟩
  have hline : (runAll group forest).toGroup.line = [] := hwaiting
  have hjoin : (runAll group forest).toGroup.books.join.1 = (runAll group forest).verdict := by
    rw [GroupRun.join_toGroup hwaiting]
  have hspawned := hpart.spawned
  rw [hline, List.length_nil, Nat.add_zero] at hspawned
  rw [← hjoin]
  exact TaskGroup.join_eq_answerOf hspawned hpart.firstError

end WorkUnit

namespace TaskGroup

open WorkUnit (levelOrder count)

/-- Every unit of every batch runs once, in level order, and each join tells how its own
batch went, as running all its units in a group of their own does. -/
theorem joins_run_in_level_order (group : String) (batches : List (List WorkUnit)) :
    let (results, g) := runBatches group { state := [] } batches
    results = batches.map (fun forest =>
      { answer := match (levelOrder forest).findSome? (WorkUnit.error? group) with
          | some e => .error e
          | none => .ok (forest.flatMap WorkUnit.units).length
        log := (levelOrder forest).map WorkUnit.id
        pending := 0 }) ∧
    (∀ forest ∈ batches, (levelOrder forest).Perm (forest.flatMap WorkUnit.units) ∧
      ∀ order, order = forest ++ order.flatMap WorkUnit.children ↔ order = levelOrder forest) ∧
    results = batches.map (fun forest =>
      { answer := (WorkUnit.runAll group forest).verdict
        log := (WorkUnit.runAll group forest).state
        pending := (WorkUnit.runAll group forest).waiting.length }) ∧
    g.line = [] ∧ g.books = {} := by
  obtain ⟨hresults, hline, hbooks⟩ := @runBatches_eq group { state := [] } rfl rfl batches
  refine ⟨?_, ?_, ?_, hline, hbooks⟩
  · rw [hresults]
    apply List.map_congr_left
    intro forest _
    have hlength := WorkUnit.length_levelOrder forest
    simp only [answerOf, hlength, count]
  · intro forest _
    refine ⟨WorkUnit.levelOrder_perm forest, fun order => ⟨WorkUnit.eq_levelOrder, ?_⟩⟩
    rintro rfl
    exact WorkUnit.levelOrder_eq forest
  · rw [hresults]
    apply List.map_congr_left
    intro forest _
    obtain ⟨hstate, hwaiting, hverdict⟩ := WorkUnit.runAll_eq group forest
    simp only [hstate, hwaiting, hverdict, List.length_nil]

end TaskGroup

end IncrementalBuild
