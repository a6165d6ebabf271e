import IncrementalBuild.Task.Memo

/-!
# Many callers of one memo

A memo is guarded by a lock, and its callers may interleave between any two times that
one of them holds it. A caller that finds the memo pending sleeps until a producer
signals, and then looks again. A producer owes the memo a value: it delivers one, or it
is dropped without. Either way it writes first, with no look at what the memo holds, and
signals when the lock is open again; a producer that has delivered is dropped after
that, and finds nothing left to do.
-/

set_option autoImplicit false

namespace IncrementalBuild

/-- What a caller asks for: the value or the task to produce it, or the value, for which
it brings an initialiser. -/
inductive MemoRequest where
  | start
  | getOrInit
  deriving DecidableEq

/-- Where a caller is between two times that it holds the lock. -/
inductive MemoStage where
  | away
  | asleep (request : MemoRequest)
  | woken (request : MemoRequest)
  /-- It is the producer and has written nothing yet. -/
  | producing (request : MemoRequest)
  /-- Its producer has written, and has yet to wake those who sleep. -/
  | signalling (isResolved : Bool)
  /-- Its producer has delivered and has yet to be dropped. -/
  | parting
  deriving DecidableEq

/-- What can be seen of a memo from outside. -/
inductive MemoEvent (ι α : Type) where
  | produced (caller : ι)
  | delivered (value : α)
  | abandoned (caller : ι) (request : MemoRequest)
  | answered (caller : ι) (value : α)
  | took (value : α)
  deriving DecidableEq

/-- What a caller can do next. An initialiser that crashes drops its producer. -/
inductive MemoAction (ι α : Type) where
  | ask (caller : ι) (request : MemoRequest)
  | look (caller : ι)
  | deliver (caller : ι) (value : α)
  | drop (caller : ι)
  | signal (caller : ι)
  | peek (caller : ι)
  | take

/-- A memo, its callers and what they have seen, in order. -/
structure MemoCrowd (ι α : Type) where
  memo : Memo α := .empty
  stage : ι → MemoStage := fun _ => .away
  history : List (MemoEvent ι α) := []

namespace MemoCrowd

variable {ι α : Type}

/-- A memo nobody has called, which may be born with a value. -/
def opened : Option α → MemoCrowd ι α
  | none => {}
  | some a => { memo := .resolved a, history := [.delivered a] }

/-- Adds to what was seen. -/
def note (s : MemoCrowd ι α) (event : MemoEvent ι α) : MemoCrowd ι α :=
  { s with history := s.history ++ [event] }

/-- All who sleep will look again. -/
def wakeAll (s : MemoCrowd ι α) : MemoCrowd ι α :=
  { s with stage := fun c => match s.stage c with
      | .asleep request => .woken request
      | stage => stage }

variable [DecidableEq ι]

/-- Moves one caller. -/
def put (s : MemoCrowd ι α) (caller : ι) (stage : MemoStage) : MemoCrowd ι α :=
  { s with stage := fun c => if c = caller then stage else s.stage c }

/-- A caller that holds the lock and looks at the memo. -/
def request (s : MemoCrowd ι α) (caller : ι) (request : MemoRequest) : MemoCrowd ι α :=
  match s.memo.start with
  | (.resolved a, m) => ({ s with memo := m }.put caller .away).note (.answered caller a)
  | (.blocked, m) => { s with memo := m }.put caller (.asleep request)
  | (.produce, m) => ({ s with memo := m }.put caller (.producing request)).note (.produced caller)

/-- One action. What a caller cannot do where it is changes nothing. A caller that brought
an initialiser is answered with the value that it delivers. -/
def act (s : MemoCrowd ι α) : MemoAction ι α → MemoCrowd ι α
  | .ask c request => match s.stage c with
    | .away => s.request c request
    | _ => s
  | .look c => match s.stage c with
    | .woken request => s.request c request
    | _ => s
  | .deliver c a => match s.stage c with
    | .producing .start =>
      ({ s with memo := .resolved a }.put c (.signalling true)).note (.delivered a)
    | .producing .getOrInit =>
      (({ s with memo := .resolved a }.put c (.signalling true)).note
        (.delivered a)).note (.answered c a)
    | _ => s
  | .drop c => match s.stage c with
    | .producing request =>
      ({ s with memo := .empty }.put c (.signalling false)).note (.abandoned c request)
    | .parting => s.put c .away
    | _ => s
  | .signal c => match s.stage c with
    | .signalling isResolved => s.wakeAll.put c (if isResolved then .parting else .away)
    | _ => s
  | .peek c => match s.memo.peek with
    | some a => s.note (.answered c a)
    | none => s
  | .take => match s.memo.take with
    | (some a, m) => { s with memo := m }.note (.took a)
    | (none, m) => { s with memo := m }

/-- Any number of actions, one after the other. -/
def acts (s : MemoCrowd ι α) (actions : List (MemoAction ι α)) : MemoCrowd ι α :=
  actions.foldl act s

end MemoCrowd

end IncrementalBuild
