/-!
# Values that are computed once

A memo is empty, is being computed, or holds a value. Whoever finds it empty becomes
its producer; whoever finds it pending waits until the producer resolves or abandons
it. A `MemoDesk` adds the callers that wait, who are served in order of arrival as
soon as the memo is no longer pending.
-/

set_option autoImplicit false

namespace IncrementalBuild

/-- A place for a value that is computed at most once. -/
inductive Memo (α : Type) where
  | empty
  | pending
  | resolved (value : α)
  deriving DecidableEq, Inhabited

/-- What a caller is told that asks for the value or for the task to produce it. -/
inductive Memo.Start (α : Type) where
  | resolved (value : α)
  | produce
  | blocked
  deriving DecidableEq

/-- What a caller is told that asks for the value and brings an initialiser. -/
inductive Memo.Reply (α : Type) where
  | value (value : α)
  | crashed
  | blocked
  deriving DecidableEq

namespace Memo

variable {α : Type}

/-- The value, if there is one. -/
def peek : Memo α → Option α
  | .resolved a => some a
  | _ => none

/-- Whether there is a value. -/
def isResolved (m : Memo α) : Bool := m.peek.isSome

/-- Whether there is neither a value nor a producer. -/
def isEmpty : Memo α → Bool
  | .empty => true
  | _ => false

/-- Whether there is a producer at work. -/
def isPending : Memo α → Bool
  | .pending => true
  | _ => false

/-- Asks for the value: whoever finds the memo empty becomes its producer. -/
def start : Memo α → Start α × Memo α
  | .resolved a => (.resolved a, .resolved a)
  | .pending => (.blocked, .pending)
  | .empty => (.produce, .pending)

/-- The producer's value arrives. Nobody but a producer can deliver one. -/
def resolve (m : Memo α) (a : α) : Memo α := if m.isPending then .resolved a else m

/-- The producer goes without a value. -/
def abandon (m : Memo α) : Memo α := if m.isPending then .empty else m

/-- Takes the value out, which empties the memo; a producer is not disturbed. -/
def take : Memo α → Option α × Memo α
  | .resolved a => (some a, .empty)
  | m => (none, m)

/-- Asks for the value and computes it if the memo is empty. An initialiser that yields
none has crashed, and leaves the memo empty. -/
def getOrInit (m : Memo α) (init : Option α) : Reply α × Memo α :=
  match m.start, init with
  | (.resolved a, m), _ => (.value a, m)
  | (.blocked, m), _ => (.blocked, m)
  | (.produce, m), some a => (.value a, m.resolve a)
  | (.produce, m), none => (.crashed, m.abandon)

/-- The written form of a memo whose values are written by `write`. -/
def text (write : α → String) : Memo α → String
  | .empty => "MemoFuture(<empty>)"
  | .pending => "MemoFuture(<pending>)"
  | .resolved a => "MemoFuture(" ++ write a ++ ")"

end Memo

/-- A memo and the callers that wait for it, each with its initialiser, in order of
arrival, and the answers given to callers that are no longer there. -/
structure MemoDesk (α : Type) where
  memo : Memo α := .empty
  waiting : List (Option α) := []
  served : List (Memo.Reply α) := []
  deriving Inhabited

namespace MemoDesk

variable {α : Type}

/-- A caller with an initialiser, which waits if the memo is pending. -/
def call (d : MemoDesk α) (init : Option α) : MemoDesk α :=
  match d.memo.getOrInit init with
  | (.blocked, m) => { d with memo := m, waiting := d.waiting ++ [init] }
  | (reply, m) => { d with memo := m, served := d.served ++ [reply] }

/-- All who wait ask again, in order. -/
def wake (d : MemoDesk α) : MemoDesk α :=
  d.waiting.foldl call { d with waiting := [] }

/-- The producer's value arrives. -/
def resolve (d : MemoDesk α) (a : α) : MemoDesk α := { d with memo := d.memo.resolve a }.wake

/-- The producer goes without a value. -/
def abandon (d : MemoDesk α) : MemoDesk α := { d with memo := d.memo.abandon }.wake

end MemoDesk

end IncrementalBuild
