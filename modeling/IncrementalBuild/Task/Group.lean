import IncrementalBuild.Build.Error

/-!
# Groups of tasks

The tasks of a group run in order of their spawning. A task changes a state, may spawn
further tasks, which go to the end of the line, and succeeds, fails or crashes. All tasks
run, also those below one that fails; `join` then tells how many there were or what the
first failure was.

The line is cut into levels: the tasks at hand, then all that these spawn, and so on. A
group is given the number of levels its tasks can reach.
-/

set_option autoImplicit false

namespace IncrementalBuild

/-- How a task ends. A crash may say nothing that can be written. -/
inductive TaskOutcome where
  | done
  | failed (error : BuildError)
  | crashed (message : Option String)
  deriving Inhabited

/-- The error an outcome stands for in a group, if it is one. -/
def TaskOutcome.error? (group : String) : TaskOutcome → Option BuildError
  | .done => none
  | .failed e => some e
  | .crashed message => some (.ofCrash group (message.getD "unknown panic payload"))

/-- What running a task makes of a state: the new one, the tasks it spawned, in order, and
how it ended. -/
structure TaskStep (σ τ : Type) where
  state : σ
  spawned : List τ := []
  outcome : TaskOutcome := .done

/-- A group at work: the state, the tasks spawned and not run yet, the number of tasks that
have run, and the errors of those, in order. -/
structure GroupRun (σ τ : Type) where
  state : σ
  waiting : List τ := []
  ran : Nat := 0
  errors : List BuildError := []

namespace GroupRun

variable {σ τ : Type}

/-- Runs one task. -/
def step (group : String) (run : τ → σ → TaskStep σ τ) (r : GroupRun σ τ) (task : τ) :
    GroupRun σ τ :=
  let s := run task r.state
  { state := s.state
    waiting := r.waiting ++ s.spawned
    ran := r.ran + 1
    errors := r.errors ++ (s.outcome.error? group).toList }

/-- Runs the tasks that wait, leaving those they spawn. -/
def level (group : String) (run : τ → σ → TaskStep σ τ) (r : GroupRun σ τ) : GroupRun σ τ :=
  r.waiting.foldl (step group run) { r with waiting := [] }

/-- Runs the tasks that wait and those spawned by them, `depth` levels of them. -/
def drain (group : String) (run : τ → σ → TaskStep σ τ) : (depth : Nat) → GroupRun σ τ → GroupRun σ τ
  | 0, r => r
  | depth + 1, r => if r.waiting.isEmpty then r else drain group run depth (r.level group run)

/-- What joining the group returns: the first error, or the number of tasks. -/
def verdict (r : GroupRun σ τ) : Except BuildError Nat :=
  match r.errors with
  | e :: _ => .error e
  | [] => .ok r.ran

end GroupRun

/-- Runs a batch of tasks and all they spawn, then tells how the batch went. -/
def runGroup {σ τ : Type} (group : String) (run : τ → σ → TaskStep σ τ) (depth : Nat)
    (tasks : List τ) (state : σ) : GroupRun σ τ :=
  GroupRun.drain group run depth { state, waiting := tasks }

/-- A task that is nothing but its name, its children and its end. -/
inductive WorkUnit where
  | node (id : String) (children : List WorkUnit) (outcome : TaskOutcome)
  deriving Inhabited

namespace WorkUnit

/-- The number of levels of a unit and the units below it. -/
def depth : WorkUnit → Nat
  | .node _ children _ => (children.map depth).foldl max 0 + 1

/-- Running a unit adds its name to a log and spawns its children. -/
def run : WorkUnit → List String → TaskStep (List String) WorkUnit
  | .node id children outcome, log => { state := log ++ [id], spawned := children, outcome }

/-- Runs a forest of units and collects their names in the order in which they ran. -/
def runAll (group : String) (forest : List WorkUnit) : GroupRun (List String) WorkUnit :=
  runGroup group run ((forest.map depth).foldl max 0) forest []

end WorkUnit

end IncrementalBuild
