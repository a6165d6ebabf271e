import IncrementalBuild.Proofs.Task.Group

/-!
# The history of a group

What a group does is the list of the tasks that ran, each with the state in which it ran. A
history leads from the state in which the group begins to the one in which it ends, it is as
long as the number of tasks that ran, and the errors of the group are those its tasks end with. A
relation that every task keeps between the state before it and the state after it holds between
any two states on the way.
-/

set_option autoImplicit false

namespace IncrementalBuild

/-- A task that runs, and the state in which it does. -/
structure TaskRun (σ τ : Type) where
  before : σ
  task : τ

section

variable {σ τ : Type} {run : τ → σ → TaskStep σ τ} {group : String}

/-- What comes of a task that runs. -/
def TaskRun.step (run : τ → σ → TaskStep σ τ) (x : TaskRun σ τ) : TaskStep σ τ :=
  run x.task x.before

/-- The tasks of a line, as they run one after the other. -/
def lineOf (run : τ → σ → TaskStep σ τ) : List τ → σ → List (TaskRun σ τ)
  | [], _ => []
  | task :: tasks, s => ⟨s, task⟩ :: lineOf run tasks (run task s).state

/-- The state after the tasks of a line. -/
def endOf (run : τ → σ → TaskStep σ τ) (tasks : List τ) (s : σ) : σ :=
  tasks.foldl (fun s task => (run task s).state) s

/-- What the tasks of a line spawn. -/
def spawnedBy (run : τ → σ → TaskStep σ τ) (tasks : List τ) (s : σ) : List τ :=
  (lineOf run tasks s).flatMap fun x => (x.step run).spawned

/-- The tasks of a batch and those spawned by them, `depth` levels of them, as they run. -/
def historyOf (run : τ → σ → TaskStep σ τ) : (depth : Nat) → List τ → σ → List (TaskRun σ τ)
  | 0, _, _ => []
  | depth + 1, tasks, s =>
    lineOf run tasks s ++ historyOf run depth (spawnedBy run tasks s) (endOf run tasks s)

/-- The states before and after each of some tasks. -/
def statesOf (run : τ → σ → TaskStep σ τ) (history : List (TaskRun σ τ)) : List σ :=
  history.flatMap fun x => [x.before, (x.step run).state]

/-- Tasks that run one after the other lead from a state to another. -/
inductive Leads (run : τ → σ → TaskStep σ τ) : σ → List (TaskRun σ τ) → σ → Prop where
  | done (s : σ) : Leads run s [] s
  | next {s s' : σ} {task : τ} {rest : List (TaskRun σ τ)} :
      Leads run (run task s).state rest s' → Leads run s (⟨s, task⟩ :: rest) s'

theorem Leads.append {s s' s'' : σ} {history history' : List (TaskRun σ τ)}
    (h : Leads run s history s') (h' : Leads run s' history' s'') :
    Leads run s (history ++ history') s'' := by
  induction h with
  | done => exact h'
  | next _ ih => exact .next (ih h')

/-- A history can be cut anywhere. -/
theorem Leads.split {s s' : σ} {history history' : List (TaskRun σ τ)}
    (h : Leads run s (history ++ history') s') :
    ∃ m, Leads run s history m ∧ Leads run m history' s' := by
  induction history generalizing s with
  | nil => exact ⟨s, .done s, h⟩
  | cons x history ih =>
    cases h with
    | next hrest =>
      obtain ⟨m, hbefore, hafter⟩ := ih hrest
      exact ⟨m, .next hbefore, hafter⟩

theorem leads_lineOf (tasks : List τ) (s : σ) :
    Leads run s (lineOf run tasks s) (endOf run tasks s) := by
  induction tasks generalizing s with
  | nil => exact .done s
  | cons task tasks ih => exact .next (ih _)

/-- Where a line ends is settled by where it begins. -/
theorem Leads.eq_end {tasks : List τ} {s s' : σ} (h : Leads run s (lineOf run tasks s) s') :
    s' = endOf run tasks s := by
  induction tasks generalizing s with
  | nil =>
    cases h
    rfl
  | cons task tasks ih =>
    cases h with
    | next hrest => exact ih hrest

/-- A property that holds at the start of a history and is kept by its tasks holds all along. -/
theorem Leads.kept {I : σ → Prop} {s s' : σ} {history : List (TaskRun σ τ)}
    (h : Leads run s history s') (hs : I s)
    (hstep : ∀ x ∈ history, I x.before → I (x.step run).state) :
    I s' ∧ ∀ m ∈ statesOf run history, I m := by
  induction h with
  | done s => exact ⟨hs, by simp [statesOf]⟩
  | @next s s' task rest _ ih =>
    have hnext : I (run task s).state := hstep _ (List.mem_cons_self ..) hs
    obtain ⟨hend, hall⟩ := ih hnext fun x hx => hstep x (List.mem_cons_of_mem _ hx)
    refine ⟨hend, fun m hm => ?_⟩
    rcases List.mem_cons.1 hm with rfl | hm
    · exact hs
    · rcases List.mem_cons.1 hm with rfl | hm
      · exact hnext
      · exact hall m hm

@[simp] theorem map_task_lineOf (tasks : List τ) (s : σ) :
    (lineOf run tasks s).map (·.task) = tasks := by
  induction tasks generalizing s with
  | nil => rfl
  | cons task tasks ih => rw [lineOf, List.map_cons, ih]

theorem task_mem_of_mem_lineOf {tasks : List τ} {s : σ} {x : TaskRun σ τ}
    (h : x ∈ lineOf run tasks s) : x.task ∈ tasks := by
  have hmem : x.task ∈ (lineOf run tasks s).map (·.task) := List.mem_map_of_mem h
  rwa [map_task_lineOf] at hmem

/-- The tasks of a level are a line, and those that wait afterwards are what they spawned. -/
theorem GroupRun.foldl_step_eq (tasks : List τ) (r : GroupRun σ τ) :
    (tasks.foldl (GroupRun.step group run) r).state = endOf run tasks r.state ∧
      (tasks.foldl (GroupRun.step group run) r).waiting =
        r.waiting ++ spawnedBy run tasks r.state ∧
      (tasks.foldl (GroupRun.step group run) r).ran = r.ran + tasks.length := by
  induction tasks generalizing r with
  | nil => exact ⟨rfl, (List.append_nil _).symm, rfl⟩
  | cons task tasks ih =>
    obtain ⟨hstate, hwaiting, hran⟩ := ih (r.step group run task)
    refine ⟨hstate, ?_, ?_⟩
    · rw [List.foldl_cons, hwaiting]
      exact List.append_assoc ..
    · rw [List.foldl_cons, hran, List.length_cons]
      change r.ran + 1 + tasks.length = _
      omega

/-- A group that has drained its tasks has run their history. -/
theorem GroupRun.drain_history (depth : Nat) (r : GroupRun σ τ) :
    Leads run r.state (historyOf run depth r.waiting r.state)
        (GroupRun.drain group run depth r).state ∧
      (GroupRun.drain group run depth r).ran =
        r.ran + (historyOf run depth r.waiting r.state).length := by
  induction depth generalizing r with
  | zero => exact ⟨.done _, rfl⟩
  | succ depth ih =>
    obtain ⟨hstate, hwaiting, hran⟩ :=
      @GroupRun.foldl_step_eq _ _ run group r.waiting { r with waiting := [] }
    obtain ⟨hleads, hcount⟩ := ih (r.level group run)
    have hstate' : (r.level group run).state = endOf run r.waiting r.state := hstate
    have hwaiting' : (r.level group run).waiting = spawnedBy run r.waiting r.state := hwaiting
    have hran' : (r.level group run).ran = r.ran + r.waiting.length := hran
    have hlength : (lineOf run r.waiting r.state).length = r.waiting.length := by
      rw [← List.length_map, map_task_lineOf]
    rw [hstate', hwaiting'] at hleads hcount
    rw [GroupRun.drain_succ, historyOf, List.length_append, hlength]
    refine ⟨(leads_lineOf _ _).append hleads, ?_⟩
    rw [hcount, hran']
    omega

/-- What is recorded of a batch leads to where the batch ends, and nothing that ran is left
out. -/
theorem runGroup_history (group : String) (run : τ → σ → TaskStep σ τ) (depth : Nat)
    (tasks : List τ) (s : σ) :
    Leads run s (historyOf run depth tasks s) (runGroup group run depth tasks s).state ∧
      (runGroup group run depth tasks s).ran = (historyOf run depth tasks s).length := by
  obtain ⟨hleads, hran⟩ :=
    @GroupRun.drain_history _ _ run group depth { state := s, waiting := tasks }
  refine ⟨hleads, ?_⟩
  rw [runGroup, hran]
  exact Nat.zero_add _

/-- The errors that the tasks of a history end with, in order. -/
def errorsOf (group : String) (run : τ → σ → TaskStep σ τ) (history : List (TaskRun σ τ)) :
    List BuildError :=
  history.filterMap fun x => (x.step run).outcome.error? group

theorem GroupRun.foldl_step_errors (tasks : List τ) (r : GroupRun σ τ) :
    (tasks.foldl (GroupRun.step group run) r).errors =
      r.errors ++ errorsOf group run (lineOf run tasks r.state) := by
  induction tasks generalizing r with
  | nil => exact (List.append_nil _).symm
  | cons task tasks ih =>
    have hfirst : (r.step group run task).errors =
        r.errors ++ ((run task r.state).outcome.error? group).toList := rfl
    have hline : errorsOf group run (lineOf run (task :: tasks) r.state) =
        ((run task r.state).outcome.error? group).toList ++
          errorsOf group run (lineOf run tasks (run task r.state).state) := by
      unfold errorsOf
      rw [lineOf, List.filterMap_cons, TaskRun.step]
      cases (run task r.state).outcome.error? group <;> rfl
    rw [List.foldl_cons, ih, hfirst, hline, List.append_assoc]
    rfl

theorem GroupRun.drain_errors (depth : Nat) (r : GroupRun σ τ) :
    (GroupRun.drain group run depth r).errors =
      r.errors ++ errorsOf group run (historyOf run depth r.waiting r.state) := by
  induction depth generalizing r with
  | zero => exact (List.append_nil _).symm
  | succ depth ih =>
    obtain ⟨hstate, hwaiting, -⟩ :=
      @GroupRun.foldl_step_eq _ _ run group r.waiting { r with waiting := [] }
    have herrors := @GroupRun.foldl_step_errors _ _ run group r.waiting { r with waiting := [] }
    have hstate' : (r.level group run).state = endOf run r.waiting r.state := hstate
    have hwaiting' : (r.level group run).waiting = spawnedBy run r.waiting r.state := hwaiting
    have herrors' : (r.level group run).errors =
        r.errors ++ errorsOf group run (lineOf run r.waiting r.state) := herrors
    rw [GroupRun.drain_succ, ih, historyOf, hstate', hwaiting', herrors', List.append_assoc]
    exact congrArg _ (List.filterMap_append).symm

/-- The errors of a batch are those its tasks end with: none is lost and none is added. -/
theorem runGroup_errors (group : String) (run : τ → σ → TaskStep σ τ) (depth : Nat)
    (tasks : List τ) (s : σ) :
    (runGroup group run depth tasks s).errors = errorsOf group run (historyOf run depth tasks s) :=
  GroupRun.drain_errors depth { state := s, waiting := tasks }

/-- A list that every task only adds to ends with what each of them has added, in order. -/
theorem Leads.added {α : Type} {f : σ → List α} (hadds : ∀ task s, f s <+: f (run task s).state)
    {s s' : σ} {history : List (TaskRun σ τ)} (h : Leads run s history s') :
    f s' = f s ++ history.flatMap fun x => (f (x.step run).state).drop (f x.before).length := by
  induction h with
  | done s => exact (List.append_nil _).symm
  | @next s s' task rest _ ih =>
    have hfirst : f s ++ (f (run task s).state).drop (f s).length = f (run task s).state :=
      List.prefix_iff_eq_append.1 (hadds task s)
    rw [List.flatMap_cons, ← List.append_assoc]
    exact hfirst.symm ▸ ih

/-- What every task keeps between the states before and after it holds between any two states
of a history. -/
theorem Leads.pairwise {R : σ → σ → Prop} (hrefl : ∀ s, R s s)
    (htrans : ∀ s s' s'', R s s' → R s' s'' → R s s'') (hstep : ∀ task s, R s (run task s).state)
    {s s' : σ} {history : List (TaskRun σ τ)} (h : Leads run s history s') :
    R s s' ∧ (∀ m ∈ statesOf run history, R s m ∧ R m s') ∧
      (statesOf run history).Pairwise R := by
  induction h with
  | done s => exact ⟨hrefl s, by simp [statesOf], List.Pairwise.nil⟩
  | @next s s' task rest hrest ih =>
    obtain ⟨hend, hbetween, hpairs⟩ := ih
    have hfirst := hstep task s
    have hcons : statesOf run (⟨s, task⟩ :: rest) = s :: (run task s).state :: statesOf run rest :=
      rfl
    have htail : ∀ m ∈ statesOf run rest, R s m := fun m hm =>
      htrans _ _ _ hfirst (hbetween m hm).1
    refine ⟨htrans _ _ _ hfirst hend, fun m hm => ?_, ?_⟩
    · rw [hcons] at hm
      rcases List.mem_cons.1 hm with rfl | hm
      · exact ⟨hrefl m, htrans _ _ _ hfirst hend⟩
      · rcases List.mem_cons.1 hm with rfl | hm
        · exact ⟨hfirst, hend⟩
        · exact ⟨htail m hm, (hbetween m hm).2⟩
    · rw [hcons]
      refine List.Pairwise.cons (fun m hm => ?_) (List.Pairwise.cons ?_ hpairs)
      · rcases List.mem_cons.1 hm with rfl | hm
        · exact hfirst
        · exact htail m hm
      · exact fun m hm => (hbetween m hm).1

end

end IncrementalBuild
