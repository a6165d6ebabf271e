import IncrementalBuild.Build.Error

/-!
# Contexts of a backend

A session needs a context of the backend as long as it lives. Contexts are made on
demand and never destroyed: one that is given back goes on top of the pool, and the one
on top is the next to be lent. A backend may refuse to make more than so many.
-/

set_option autoImplicit false

namespace IncrementalBuild

/-- The number of a context; they are numbered in order of their making. -/
abbrev ContextId : Type := Nat

/-- The contexts that are not on loan, top first, how many were ever made, and how often the
backend was asked for one. -/
structure ContextPool where
  backendName : String := "null"
  /-- The number of times the backend can be asked with success. -/
  limit : Option Nat := none
  idle : List ContextId := []
  made : Nat := 0
  asked : Nat := 0
  deriving Inhabited

namespace ContextPool

/-- Whether the backend refuses to make another context. -/
def isExhausted (p : ContextPool) : Bool := p.limit.any (· ≤ p.asked)

/-- The error of a backend that refuses. -/
def exhaustedError (p : ContextPool) : BuildError :=
  ⟨.resourceExhausted, s!"backend `{p.backendName}` could not create a context"⟩

/-- Lends a context: the one on top of the pool, or a new one. -/
def acquire (p : ContextPool) : Except BuildError ContextId × ContextPool :=
  match p.idle with
  | c :: rest => (.ok c, { p with idle := rest })
  | [] =>
    if p.isExhausted then (.error p.exhaustedError, { p with asked := p.asked + 1 })
    else (.ok p.made, { p with made := p.made + 1, asked := p.asked + 1 })

/-- Takes a context back. -/
def release (p : ContextPool) (c : ContextId) : ContextPool := { p with idle := c :: p.idle }

end ContextPool

end IncrementalBuild
