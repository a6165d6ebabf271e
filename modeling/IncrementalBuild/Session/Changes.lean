import IncrementalBuild.Build.Error
import IncrementalBuild.Config.Settings
import IncrementalBuild.Decl.Declaration
import IncrementalBuild.Diagnostic.Basic

/-!
# What a new revision changes

The items of a new revision of a file are held against the declarations that are live.
A function whose bytes are those of the live declaration of its name is left alone, and
one whose name is not live is added. Whatever else there is to do about a live
declaration cannot be done: the first item that would need it blocks the revision, and
so do, at the end, live declarations the revision does not have. What comes before a
blocking item is done all the same.
-/

set_option autoImplicit false

namespace IncrementalBuild

/-- Why a revision cannot be taken over. -/
inductive Blocker where
  | changedKind (live : Decl) (v : VariableItem)
  | variable (v : VariableItem)
  | test (t : TestItem)
  | changedBody (live : Decl) (f : FunctionItem)
  | deleted (live : Decl)

/-- What is to be done about an item. -/
inductive Change where
  | runComptime (block : Span)
  | reportNameless (f : FunctionItem)
  | add (symbol : String) (f : FunctionItem)

/-- What is to be done about a revision, in order, and what blocks the rest of it. -/
structure ChangePlan where
  changes : List Change := []
  blocker : Option Blocker := none

namespace Blocker

/-- The place of an item as a build error tells it. -/
def place (file : SourceFile) (span : Span) : String := (Location.within file span).text

/-- The build error of a revision that is blocked. -/
def toBuildError (settings : Settings) (file : SourceFile) : Blocker → BuildError
  | .changedKind live v => .unimplemented .changedDeclKind
      ("`" ++ live.symbol ++ "` was a function, now a variable, at " ++ place file v.span)
  | .variable v => .unimplemented .incrementalVariable
      ("`" ++ v.name ++ "` at " ++ place file v.span)
  | .test t => .unimplemented .testDecl
      ("test \"" ++ settings.testFullName (t.name.getD "") ++ "\" at " ++ place file t.span)
  | .changedBody live f => .unimplemented .changedFunctionBody
      ("`" ++ live.symbol ++ "` at " ++ place file f.nameSpan)
  | .deleted live => .unimplemented .deletedDecl
      ("`" ++ live.symbol ++ "` (previously at " ++ place live.file live.item.nameSpan ++ ")")

end Blocker

namespace ChangePlan

/-- A plan with one change more at its start. -/
def after (p : ChangePlan) (c : Change) : ChangePlan := { p with changes := c :: p.changes }

/-- A plan that ends here. -/
def blocked (b : Blocker) : ChangePlan := { blocker := some b }

/-- The plan for the items of a revision. `stale` holds the live declarations that no item
has named yet. -/
def ofItems (settings : Settings) (file : SourceFile) : (stale : List Decl) → List Item → ChangePlan
  | [], [] => {}
  | live :: _, [] => blocked (.deleted live)
  | stale, .comptime block :: rest => (ofItems settings file stale rest).after (.runComptime block)
  | stale, .variable v :: _ =>
    match stale.find? (·.symbol == v.name) with
    | some live => blocked (.changedKind live v)
    | none => blocked (.variable v)
  | stale, .test t :: rest =>
    if settings.selectsTest (t.name.getD "") then blocked (.test t)
    else ofItems settings file stale rest
  | stale, .function f :: rest =>
    match f.name with
    | none => (ofItems settings file stale rest).after (.reportNameless f)
    | some symbol =>
      match stale.find? (·.symbol == symbol) with
      | none => (ofItems settings file stale rest).after (.add symbol f)
      | some live =>
        if live.bytes = slice (bytesOf file.text) f.span then
          ofItems settings file (stale.filter (·.symbol != symbol)) rest
        else blocked (.changedBody live f)

/-- The live declarations a revision does not have. -/
def missing (live : List Decl) (items : List Item) : List Decl :=
  live.filter fun d => !items.any fun
    | .function f => f.name == some d.symbol
    | _ => false

end ChangePlan

end IncrementalBuild
