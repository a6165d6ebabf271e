import IncrementalBuild.Source.Name
import IncrementalBuild.Source.Text
import IncrementalBuild.Syntax.Tree
import IncrementalBuild.Text.Escape
import IncrementalBuild.Types.Store

/-!
# Declarations

A declaration is a named function item of one revision of a file. Two declarations can
be alike in everything and still be two, so each has a number of its own: its identity.
What a declaration means is its resolution: a type and, if it has a body, a value that
can be linked, or the fact that its analysis failed.
-/

set_option autoImplicit false

namespace IncrementalBuild

/-- The identity of a declaration. -/
abbrev DeclId : Type := Nat

/-- A named function of one revision of a file. -/
structure Decl where
  id : DeclId
  name : Name
  /-- The name as a text, by which the declaration is linked. -/
  symbol : String
  item : FunctionItem
  file : SourceFile
  deriving Inhabited

namespace Decl

/-- The declaration of an item, which has to be a function with a name. -/
def ofItem? (id : DeclId) (names : Interner) (file : SourceFile) : Item → Option Decl
  | .function f => f.name.map fun symbol => { id, name := names.nameOf symbol, symbol, item := f, file }
  | _ => none

/-- The bytes of the whole declaration. -/
def bytes (d : Decl) : Bytes := slice (bytesOf d.file.text) d.item.span

/-- Whether the declaration is exported. -/
def isExport (d : Decl) : Bool := d.item.isExport

/-- The written form used in listings. -/
def text (d : Decl) : String :=
  "Decl \x7b symbol: " ++ quoteText d.symbol.toList ++ ", is_export: " ++ toString d.isExport
    ++ ", span: " ++ d.item.span.text ++ ", path: " ++ quoteText d.file.path.toList ++ ", .. \x7d"

end Decl

/-- A function that can be linked. Its type is an object of the session's type store. -/
structure FunctionValue where
  declName : Name
  symbol : String
  type : TypeId
  isExport : Bool
  deriving DecidableEq, Inhabited

/-- The written form of a function: its symbol and its type. -/
def FunctionValue.text (types : TypeStore) (f : FunctionValue) : String :=
  f.symbol ++ ": " ++ types.text f.type

/-- The value of a declaration. -/
def Decl.value (d : Decl) (type : TypeId) : FunctionValue :=
  { declName := d.name, symbol := d.symbol, type, isExport := d.isExport }

/-- What a declaration was found to mean. -/
inductive Resolution where
  | resolved (type : TypeId) (value : Option FunctionValue)
  | failed
  deriving DecidableEq, Inhabited

/-- The type objects a resolution holds, as often as it does. -/
def Resolution.held : Resolution → List TypeId
  | .resolved type value => type :: value.toList.map (·.type)
  | .failed => []

end IncrementalBuild
