/-!
# Locks and cancellation

A lock guards a value and is held by nobody or by one owner. A cancel token starts out
live and stays cancelled once it is.
-/

set_option autoImplicit false

namespace IncrementalBuild

/-- A guarded value. -/
structure Lock (α : Type) where
  value : α
  isHeld : Bool := false

namespace Lock

variable {α : Type}

/-- Takes the lock if nobody holds it, and says whether that was so. -/
def tryAcquire (l : Lock α) : Bool × Lock α := (!l.isHeld, { l with isHeld := true })

/-- Gives the lock back, and says whether it was held. -/
def release (l : Lock α) : Bool × Lock α := (l.isHeld, { l with isHeld := false })

/-- Changes the value, whoever holds the lock. -/
def modify (l : Lock α) (f : α → α) : Lock α := { l with value := f l.value }

/-- The written form, which hides the value while the lock is held. -/
def text (write : α → String) (l : Lock α) : String :=
  if l.isHeld then "Locked(<held>)" else "Locked(" ++ write l.value ++ ")"

end Lock

/-- Whether work shall stop. -/
inductive CancelToken where
  | live
  | cancelled
  deriving DecidableEq, Inhabited

namespace CancelToken

/-- Asks the work to stop. -/
def cancel : CancelToken → CancelToken := fun _ => .cancelled

/-- Whether the work shall stop. -/
def isCancelled (t : CancelToken) : Bool := t = .cancelled

end CancelToken

end IncrementalBuild
