import IncrementalBuild.Task.Group

/-!
# The books of a group

A group counts the tasks that were spawned and have not finished. Tasks wait in a line,
and one worker takes them from its front; what a task spawns goes to the end. Joining the
group waits until nothing is pending, returns the first error or the number of tasks, and
leaves the books as for a new group.
-/

set_option autoImplicit false

namespace IncrementalBuild

/-- What a group writes down: the tasks that have not finished, those spawned since the last
join, the failures among them and the first of these. -/
structure GroupBooks where
  pending : Nat := 0
  spawned : Nat := 0
  failures : Nat := 0
  firstError : Option BuildError := none

namespace GroupBooks

/-- One more task. -/
def spawn (b : GroupBooks) : GroupBooks :=
  { b with pending := b.pending + 1, spawned := b.spawned + 1 }

/-- A task has finished, with an error or without. Only the first error is kept. -/
def finish (b : GroupBooks) (error? : Option BuildError) : GroupBooks :=
  { b with
    pending := b.pending - 1
    failures := b.failures + error?.toList.length
    firstError := b.firstError.or error? }

/-- What a join returns once nothing is pending, and the books it leaves. -/
def join (b : GroupBooks) : Except BuildError Nat × GroupBooks :=
  let answer := match b.firstError with
    | some e => .error e
    | none => .ok b.spawned
  (answer, { b with spawned := 0, failures := 0, firstError := none })

end GroupBooks

/-- A group, the tasks that wait in its line, and the state its tasks change. -/
structure TaskGroup (σ τ : Type) where
  state : σ
  line : List τ := []
  books : GroupBooks := {}

namespace TaskGroup

variable {σ τ : Type}

/-- A task goes to the end of the line. -/
def spawn (g : TaskGroup σ τ) (task : τ) : TaskGroup σ τ :=
  { g with line := g.line ++ [task], books := g.books.spawn }

/-- The worker runs the task at the front of the line. -/
def work (group : String) (run : τ → σ → TaskStep σ τ) (g : TaskGroup σ τ) : TaskGroup σ τ :=
  match g.line with
  | [] => g
  | task :: rest =>
    let s := run task g.state
    let g := s.spawned.foldl spawn { g with state := s.state, line := rest }
    { g with books := g.books.finish (s.outcome.error? group) }

end TaskGroup

namespace WorkUnit

def id : WorkUnit → String
  | .node id _ _ => id

def children : WorkUnit → List WorkUnit
  | .node _ children _ => children

def outcome : WorkUnit → TaskOutcome
  | .node _ _ outcome => outcome

/-- The unit and all units below it, each before those below it. -/
def units : WorkUnit → List WorkUnit
  | .node id children outcome => .node id children outcome :: children.flatMap units

/-- The number of units of a forest. -/
def count (forest : List WorkUnit) : Nat := (forest.flatMap units).length

theorem count_append (forest more : List WorkUnit) :
    count (forest ++ more) = count forest + count more := by
  simp [count]

theorem count_cons (u : WorkUnit) (forest : List WorkUnit) :
    count (u :: forest) = count u.children + 1 + count forest := by
  obtain ⟨id, children, outcome⟩ := u
  simp only [count, units, WorkUnit.children, List.flatMap_cons, List.length_append,
    List.length_cons]

end WorkUnit

namespace TaskGroup

/-- What spawning some tasks does to a group. -/
theorem foldl_spawn {σ τ : Type} (tasks : List τ) (g : TaskGroup σ τ) :
    tasks.foldl spawn g = { g with
      line := g.line ++ tasks
      books := { g.books with
        pending := g.books.pending + tasks.length
        spawned := g.books.spawned + tasks.length } } := by
  induction tasks generalizing g with
  | nil => simp
  | cons task tasks ih =>
    rw [List.foldl_cons, ih]
    simp only [spawn, GroupBooks.spawn, List.append_assoc, List.singleton_append,
      List.length_cons, TaskGroup.mk.injEq, GroupBooks.mk.injEq, true_and, and_true]
    omega

/-- A group of units, which log their names as they run. -/
abbrev OfUnits : Type := TaskGroup (List String) WorkUnit

theorem line_work {group : String} {g : OfUnits} {u : WorkUnit} {rest : List WorkUnit}
    (h : g.line = u :: rest) : (g.work group WorkUnit.run).line = rest ++ u.children := by
  obtain ⟨id, children, outcome⟩ := u
  simp [work, h, WorkUnit.run, foldl_spawn, WorkUnit.children]

/-- The worker goes on while tasks are pending. -/
def await (group : String) (g : OfUnits) : OfUnits :=
  if 0 < g.books.pending then
    match _h : g.line with
    | [] => g
    | _ :: _ => (g.work group WorkUnit.run).await group
  else g
termination_by WorkUnit.count g.line
decreasing_by
  rw [line_work _h, _h, WorkUnit.count_append, WorkUnit.count_cons]
  omega

/-- How a batch went: what its join returned, the names of the units in the order in which
they ran, and how many tasks were pending after it. -/
structure Batch where
  answer : Except BuildError Nat
  log : List String
  pending : Nat

/-- Spawns the units of a batch into a group, and joins the group. -/
def runBatch (group : String) (g : OfUnits) (forest : List WorkUnit) : Batch × OfUnits :=
  let g := (forest.foldl spawn { g with state := [] }).await group
  let (answer, books) := g.books.join
  ({ answer, log := g.state, pending := books.pending }, { g with books })

/-- One batch after the other, all in the same group. -/
def runBatches (group : String) (g : OfUnits) : List (List WorkUnit) → List Batch × OfUnits
  | [] => ([], g)
  | forest :: batches =>
    let (batch, g) := g.runBatch group forest
    let (later, g) := g.runBatches group batches
    (batch :: later, g)

end TaskGroup

end IncrementalBuild
