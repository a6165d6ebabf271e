import IncrementalBuild.Decl.Declaration

/-!
# The live declarations of a file

A table has at most one declaration for each name. The first one to come keeps its
place, and nothing is ever taken out.
-/

set_option autoImplicit false

namespace IncrementalBuild

/-- The declarations of a file, oldest first. -/
structure DeclTable where
  decls : List Decl := []
  deriving Inhabited

namespace DeclTable

/-- The declaration of a name. -/
def find? (t : DeclTable) (symbol : String) : Option Decl := t.decls.find? (·.symbol == symbol)

/-- Adds a declaration if its name is free; else yields the one that has the name. -/
def insert (t : DeclTable) (d : Decl) : Except Decl DeclTable :=
  match t.find? d.symbol with
  | some existing => .error existing
  | none => .ok ⟨t.decls ++ [d]⟩

/-- The number of declarations. -/
def size (t : DeclTable) : Nat := t.decls.length

/-- Whether there is no declaration. -/
def isEmpty (t : DeclTable) : Bool := t.decls.isEmpty

end DeclTable

end IncrementalBuild
