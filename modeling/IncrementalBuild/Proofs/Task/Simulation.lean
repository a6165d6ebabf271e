import IncrementalBuild.Proofs.Task.Group

/-!
# Groups that look alike

Two states look alike if a view of both is the same, and so do two tasks. If tasks that look
alike, run in states that look alike, leave states that look alike, spawn tasks that look alike and
end alike, then so does a whole group: it ends in states that look alike and with the same verdict.
-/

set_option autoImplicit false

namespace IncrementalBuild

variable {σ τ : Type}

/-- What is seen of a step. -/
def TaskStep.view (seeState : σ → σ) (seeTask : τ → τ) (r : TaskStep σ τ) : TaskStep σ τ :=
  { state := seeState r.state, spawned := r.spawned.map seeTask, outcome := r.outcome }

/-- Running tasks respects a view, in the states of a class that no task leaves. -/
structure Respects (run : τ → σ → TaskStep σ τ) (seeState : σ → σ) (seeTask : τ → τ)
    (I : σ → Prop) : Prop where
  step : ∀ {t t' s s'}, I s → I s' → seeTask t = seeTask t' → seeState s = seeState s' →
    (run t s).view seeState seeTask = (run t' s').view seeState seeTask
  kept : ∀ t s, I s → I (run t s).state

namespace GroupRun

variable {group : String} {run : τ → σ → TaskStep σ τ} {seeState : σ → σ} {seeTask : τ → τ}
  {I : σ → Prop}

/-- Groups at work that look alike. -/
structure Alike (seeState : σ → σ) (seeTask : τ → τ) (I : σ → Prop) (r r' : GroupRun σ τ) :
    Prop where
  inside : I r.state ∧ I r'.state
  state : seeState r.state = seeState r'.state
  waiting : r.waiting.map seeTask = r'.waiting.map seeTask
  ran : r.ran = r'.ran
  errors : r.errors = r'.errors

variable {r r' : GroupRun σ τ}

theorem Alike.step (hrun : Respects run seeState seeTask I) (h : Alike seeState seeTask I r r')
    {t t' : τ} (ht : seeTask t = seeTask t') :
    Alike seeState seeTask I (r.step group run t) (r'.step group run t') := by
  have hview := hrun.step h.inside.1 h.inside.2 ht h.state
  refine ⟨⟨hrun.kept _ _ h.inside.1, hrun.kept _ _ h.inside.2⟩,
    congrArg (fun r => r.state) hview, ?_, congrArg (· + 1) h.ran, ?_⟩
  · have hspawned : ((run t r.state).spawned.map seeTask) = (run t' r'.state).spawned.map seeTask :=
      congrArg (fun r => r.spawned) hview
    show (r.waiting ++ _).map seeTask = (r'.waiting ++ _).map seeTask
    rw [List.map_append, List.map_append, h.waiting, hspawned]
  · have houtcome : (run t r.state).outcome = (run t' r'.state).outcome :=
      congrArg (fun r => r.outcome) hview
    show r.errors ++ _ = r'.errors ++ _
    rw [h.errors, houtcome]

theorem Alike.foldl_step (hrun : Respects run seeState seeTask I) {tasks tasks' : List τ}
    (htasks : tasks.map seeTask = tasks'.map seeTask) (h : Alike seeState seeTask I r r') :
    Alike seeState seeTask I (tasks.foldl (GroupRun.step group run) r)
      (tasks'.foldl (GroupRun.step group run) r') := by
  induction tasks generalizing tasks' r r' with
  | nil =>
    obtain rfl := List.map_eq_nil_iff.1 htasks.symm
    exact h
  | cons t tasks ih =>
    cases tasks' with
    | nil => cases htasks
    | cons t' tasks' =>
      obtain ⟨ht, htail⟩ := List.cons.inj htasks
      rw [List.foldl_cons, List.foldl_cons]
      exact ih htail (h.step hrun ht)

theorem Alike.drain (hrun : Respects run seeState seeTask I) (depth : Nat)
    (h : Alike seeState seeTask I r r') :
    Alike seeState seeTask I (GroupRun.drain group run depth r)
      (GroupRun.drain group run depth r') := by
  induction depth generalizing r r' with
  | zero => exact h
  | succ depth ih =>
    rw [drain_succ, drain_succ]
    exact ih (Alike.foldl_step hrun h.waiting ⟨h.inside, h.state, rfl, h.ran, h.errors⟩)

end GroupRun

/-- Groups that begin alike end alike. -/
theorem Respects.runGroup {run : τ → σ → TaskStep σ τ} {seeState : σ → σ} {seeTask : τ → τ}
    {I : σ → Prop} (hrun : Respects run seeState seeTask I) (group : String) (depth : Nat)
    {tasks tasks' : List τ} (htasks : tasks.map seeTask = tasks'.map seeTask) {s s' : σ}
    (hs : I s) (hs' : I s') (hsame : seeState s = seeState s') :
    GroupRun.Alike seeState seeTask I (IncrementalBuild.runGroup group run depth tasks s)
      (IncrementalBuild.runGroup group run depth tasks' s') :=
  GroupRun.Alike.drain hrun depth ⟨⟨hs, hs'⟩, hsame, htasks, rfl, rfl⟩

theorem GroupRun.Alike.verdict {seeState : σ → σ} {seeTask : τ → τ} {I : σ → Prop}
    {r r' : GroupRun σ τ} (h : GroupRun.Alike seeState seeTask I r r') :
    r.verdict = r'.verdict := by
  unfold GroupRun.verdict
  rw [h.errors, h.ran]

end IncrementalBuild
