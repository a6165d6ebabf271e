import IncrementalBuild.Task.Group

/-!
# What the tasks of a group keep

A property of the state that every task keeps holds after the group has run, whatever the
tasks spawn. Where only some tasks keep it, it is enough that these spawn none of the
others. The errors of tasks that have run are never dropped, so joining a group returns the
error of its first task if there is one.
-/

set_option autoImplicit false

namespace IncrementalBuild

namespace GroupRun

variable {σ τ : Type} {group : String} {run : τ → σ → TaskStep σ τ} {Q : τ → Prop} {I : σ → Prop}

/-- A level more is a level before the others, also where nothing waits. -/
theorem drain_succ (group : String) (run : τ → σ → TaskStep σ τ) (depth : Nat)
    (r : GroupRun σ τ) :
    drain group run (depth + 1) r = drain group run depth (r.level group run) := by
  rw [drain]
  split
  · rename_i hempty
    have hnil : r.waiting = [] := List.isEmpty_iff.1 hempty
    have hlevel : r.level group run = r := by
      unfold level
      rw [hnil]
      cases r
      subst hnil
      rfl
    rw [hlevel]
    cases depth with
    | zero => rfl
    | succ depth => rw [drain, if_pos hempty]
  · rfl

/-- Tasks of a class keep a property of the state and spawn tasks of that class only. -/
def Keeps (run : τ → σ → TaskStep σ τ) (Q : τ → Prop) (I : σ → Prop) : Prop :=
  ∀ task s, Q task → I s → I (run task s).state ∧ ∀ t ∈ (run task s).spawned, Q t

/-- The property holds and all waiting tasks are of the class. -/
def Kept (Q : τ → Prop) (I : σ → Prop) (r : GroupRun σ τ) : Prop :=
  I r.state ∧ ∀ t ∈ r.waiting, Q t

theorem Keeps.step (h : Keeps run Q I) {r : GroupRun σ τ} {task : τ} (hr : r.Kept Q I)
    (htask : Q task) : (r.step group run task).Kept Q I := by
  obtain ⟨hstate, hspawned⟩ := h task r.state htask hr.1
  refine ⟨hstate, fun t ht => ?_⟩
  rcases List.mem_append.1 ht with ht | ht
  · exact hr.2 t ht
  · exact hspawned t ht

theorem Keeps.foldl_step (h : Keeps run Q I) {tasks : List τ} (htasks : ∀ t ∈ tasks, Q t)
    {r : GroupRun σ τ} (hr : r.Kept Q I) : (tasks.foldl (GroupRun.step group run) r).Kept Q I := by
  induction tasks generalizing r with
  | nil => exact hr
  | cons task tasks ih =>
    obtain ⟨htask, htasks⟩ := List.forall_mem_cons.1 htasks
    exact ih htasks (h.step hr htask)

theorem Keeps.level (h : Keeps run Q I) {r : GroupRun σ τ} (hr : r.Kept Q I) :
    (r.level group run).Kept Q I :=
  h.foldl_step hr.2 ⟨hr.1, by simp⟩

theorem Keeps.drain (h : Keeps run Q I) (depth : Nat) {r : GroupRun σ τ} (hr : r.Kept Q I) :
    (GroupRun.drain group run depth r).Kept Q I := by
  induction depth generalizing r with
  | zero => exact hr
  | succ depth ih =>
    rw [GroupRun.drain]
    split
    · exact hr
    · exact ih (h.level hr)

theorem errors_foldl_step (tasks : List τ) (r : GroupRun σ τ) :
    r.errors <+: (tasks.foldl (step group run) r).errors := by
  induction tasks generalizing r with
  | nil => exact List.prefix_refl _
  | cons task tasks ih => exact (List.prefix_append _ _).trans (ih (r.step group run task))

theorem errors_drain (depth : Nat) (r : GroupRun σ τ) :
    r.errors <+: (drain group run depth r).errors := by
  induction depth generalizing r with
  | zero => exact List.prefix_refl _
  | succ depth ih =>
    rw [drain]
    split
    · exact List.prefix_refl _
    · exact (errors_foldl_step r.waiting { r with waiting := [] }).trans (ih (r.level group run))

end GroupRun

/-- A group whose first task fails returns that error. -/
theorem verdict_runGroup_of_error {σ τ : Type} {group : String} {run : τ → σ → TaskStep σ τ}
    {depth : Nat} {task : τ} {tasks : List τ} {state : σ} {e : BuildError}
    (h : (run task state).outcome.error? group = some e) :
    (runGroup group run (depth + 1) (task :: tasks) state).verdict = .error e := by
  let r₁ : GroupRun σ τ := GroupRun.step group run { state } task
  have hfirst : r₁.errors = [e] := by
    change ([] : List BuildError) ++ ((run task state).outcome.error? group).toList = [e]
    rw [h]
    rfl
  obtain ⟨more, hmore⟩ := (@GroupRun.errors_foldl_step _ _ group run tasks r₁).trans
    (@GroupRun.errors_drain _ _ group run depth _)
  rw [hfirst] at hmore
  have hrun : runGroup group run (depth + 1) (task :: tasks) state =
      GroupRun.drain group run depth (tasks.foldl (GroupRun.step group run) r₁) := rfl
  rw [hrun, GroupRun.verdict, ← hmore]
  rfl

/-- What all tasks keep, a group keeps. -/
theorem GroupRun.Keeps.runGroup {σ τ : Type} {run : τ → σ → TaskStep σ τ} {Q : τ → Prop}
    {I : σ → Prop} (h : GroupRun.Keeps run Q I) {group : String} {depth : Nat} {tasks : List τ}
    {state : σ} (htasks : ∀ t ∈ tasks, Q t) (hstate : I state) :
    I (IncrementalBuild.runGroup group run depth tasks state).state :=
  (h.drain depth ⟨hstate, htasks⟩).1

end IncrementalBuild
