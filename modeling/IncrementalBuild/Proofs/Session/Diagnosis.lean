import IncrementalBuild.Proofs.Types.Meaning
import IncrementalBuild.Session.Cycle

/-!
# What there is to say about a source file

What a build has to report about a source file that it has not seen before, told from the items
of the file alone. Some items cannot be built, and the first of these is an error. Otherwise there
are the problems of the names, function by function, and after all of them the problems of the
exported functions: whether the symbol is taken, and what is wrong with the signature or, if
nothing is, with the body. Tasks, tables and types have no part in this.
-/

set_option autoImplicit false

namespace IncrementalBuild

/-- The functions among items. -/
def functionsOf (items : List Item) : List FunctionItem :=
  items.filterMap fun
    | .function f => some f
    | _ => none

/-- The functions among items that are exported under a name. -/
def exportsOf (items : List Item) : List FunctionItem :=
  (functionsOf items).filter fun f => f.isExport && f.name.isSome

/-- What there is to say about each of some functions, given those before it. -/
def inTurn (say : List FunctionItem → FunctionItem → List Diagnostic) :
    (before : List FunctionItem) → List FunctionItem → List Diagnostic
  | _, [] => []
  | before, f :: rest => say before f ++ inTurn say (before ++ [f]) rest

namespace FunctionItem

/-- The first of some functions that has a name. -/
def firstNamed? (symbol : String) (fs : List FunctionItem) : Option FunctionItem :=
  fs.find? (·.name == some symbol)

/-- The problem of a function that has the name of an earlier one. -/
def redefinition (file : SourceFile) (symbol : String) (f earlier : FunctionItem) :
    Diagnostic where
  code := .E2002
  message := s!"redefinition of `{symbol}`"
  location := .within file f.nameSpan
  labels := [⟨.within file earlier.nameSpan, "previous definition here"⟩]

/-- The problem of an exported function that has the name of an earlier exported one. -/
def collision (file : SourceFile) (symbol : String) (f earlier : FunctionItem) :
    Diagnostic where
  code := .E2003
  message := s!"exported symbol collision: `{symbol}`"
  location := .within file f.nameSpan
  labels := [⟨.within file earlier.nameSpan, "other symbol here"⟩]

/-- The problem of a function that has to return something but whose body is blank. -/
def emptyBody (file : SourceFile) (symbol : String) (result : Ty) (body : Span) :
    Diagnostic where
  code := .E3004
  message := s!"`{symbol}` returns `{result.text}` but its body is empty"
  location := .within file body

/-- What is wrong with the name of a function, given the functions before it. -/
def nameProblems (file : SourceFile) (before : List FunctionItem) (f : FunctionItem) :
    List Diagnostic :=
  match f.name with
  | none => [Workshop.namelessProblem file f]
  | some symbol => (firstNamed? symbol before).toList.map (redefinition file symbol f)

/-- What is wrong with the signature of a function or, if its types can be read, with its body. -/
def meaningProblems (file : SourceFile) (symbol : String) (f : FunctionItem) : List Diagnostic :=
  match f.meaning? with
  | none => f.problems file
  | some (_, result) =>
    match f.body with
    | none => []
    | some body =>
      if !result.producesNothing && (trim (innerSource file body).toList).isEmpty then
        [emptyBody file symbol result body]
      else []

/-- What is wrong with an exported function, given the exported functions before it. -/
def exportProblems (file : SourceFile) (before : List FunctionItem) (f : FunctionItem) :
    List Diagnostic :=
  match f.name with
  | none => []
  | some symbol =>
    (firstNamed? symbol before).toList.map (collision file symbol f) ++ f.meaningProblems file symbol

end FunctionItem

/-- The error of an item that cannot be built: a variable, or a test that counts. -/
def Item.unsupported? (settings : Settings) (file : SourceFile) : Item → Option BuildError
  | .variable v => some (.unimplemented .incrementalVariable
      ("`" ++ v.name ++ "` at " ++ (Location.within file v.span).text))
  | .test t =>
    if settings.selectsTest (t.name.getD "") then
      some (.unimplemented .testDecl
        ("test \"" ++ settings.testFullName (t.name.getD "") ++ "\" at " ++
          (Location.within file t.span).text))
    else none
  | .function _ | .comptime _ => none

/-- The problems of the items of a file, those of names before those of exports. -/
def SourceFile.problems (file : SourceFile) : List Diagnostic :=
  inTurn (FunctionItem.nameProblems file) [] (functionsOf file.items) ++
    inTurn (FunctionItem.exportProblems file) [] (exportsOf file.items)

/-- What the first build of a source text has to report. -/
def firstOutcome (settings : Settings) (path text : String) : BuildOutcome :=
  let file := (parse text).file path text
  match (parse text).error with
  | some e => .fail [.ofSyntaxError file e]
  | none =>
    match file.items.findSome? (Item.unsupported? settings file) with
    | some e => .error e
    | none =>
      match file.problems with
      | [] => .ok
      | problems => .fail problems

/-- The problems that an outcome reports. -/
def BuildOutcome.problems : BuildOutcome → List Diagnostic
  | .fail problems => problems
  | .ok | .error _ => []

theorem BuildOutcome.eq_fail {o : BuildOutcome} (h : o.problems ≠ []) : o = .fail o.problems := by
  cases o with
  | fail problems => rfl
  | ok => exact absurd rfl h
  | error e => exact absurd rfl h

end IncrementalBuild
