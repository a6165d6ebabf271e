import IncrementalBuild.Decl.Declaration

/-!
# The functions to link

The functions a program is linked from, one for each symbol, in order of arrival.
-/

set_option autoImplicit false

namespace IncrementalBuild

/-- The functions a program is linked from. -/
structure LinkSet where
  functions : List FunctionValue := []
  deriving Inhabited

namespace LinkSet

/-- Whether there is a function with a symbol. -/
def contains (s : LinkSet) (symbol : String) : Bool := s.functions.any (·.symbol == symbol)

/-- Adds a function unless there is one with its symbol, and says whether it did. -/
def insert (s : LinkSet) (f : FunctionValue) : Bool × LinkSet :=
  if s.contains f.symbol then (false, s) else (true, ⟨s.functions ++ [f]⟩)

/-- The number of functions. -/
def size (s : LinkSet) : Nat := s.functions.length

/-- Whether there is no function. -/
def isEmpty (s : LinkSet) : Bool := s.functions.isEmpty

end LinkSet

end IncrementalBuild
