import IncrementalBuild.Diagnostic.Basic
import IncrementalBuild.Types.Store

/-!
# Types of signatures

From a type as it is written to an object of the type store. Every name that denotes no
type is a problem, and all problems are found, from left to right; only if there is none
is there a type. The handles taken on the way are given back, so what comes out is one
handle or none.
-/

set_option autoImplicit false

namespace IncrementalBuild

/-- What reading types yields: the handles, or none if there was a problem, the problems, and
the store. -/
structure TypeReading (α : Type) where
  found : Option α
  problems : List Diagnostic
  types : TypeStore

namespace TypeReading

/-- The note on every malformed integer type. -/
def widthNote : String := s!"integer widths range from 1 to {maxWidth} bits"

/-- The problem of a name that denotes no type. -/
def unknownProblem (file : SourceFile) (name : String) (span : Span) : Diagnostic where
  code := .E3001
  message := s!"use of undeclared type `{name}`"
  location := .within file span

/-- The problem of an integer type whose width is malformed. -/
def widthProblem (file : SourceFile) (name : String) (span : Span) (e : WidthError) : Diagnostic where
  code := .E3002
  message := s!"invalid integer type `{name}`: {e.message}"
  location := .within file span
  notes := [widthNote]

/-- Reads a name. -/
def ofName (file : SourceFile) (types : TypeStore) (name : String) (span : Span) :
    TypeReading TypeId :=
  match types.named? name with
  | .ok (some (id, types)) => ⟨some id, [], types⟩
  | .ok none => ⟨none, [unknownProblem file name span], types⟩
  | .error e => ⟨none, [widthProblem file name span e], types⟩

/-- Turns a handle of a component into one of the type made of it. -/
def wrap (r : TypeReading TypeId) (form : TypeId → TypeForm) : TypeReading TypeId :=
  match r.found with
  | none => r
  | some component =>
    let (id, types) := r.types.intern (form component)
    ⟨some id, r.problems, types.release component⟩

/-- Adds the handle of one more type to those of the types before it. If either is missing,
the other is given back. -/
def append (before : TypeReading (List TypeId)) (next : TypeReading TypeId) :
    TypeReading (List TypeId) :=
  let problems := before.problems ++ next.problems
  match before.found, next.found with
  | some ids, some id => ⟨some (ids ++ [id]), problems, next.types⟩
  | some ids, none => ⟨none, problems, ids.foldl TypeStore.release next.types⟩
  | none, some id => ⟨none, problems, next.types.release id⟩
  | none, none => ⟨none, problems, next.types⟩

/-- Turns the handles of parameter types and a result type into one of a function type. The
result comes last in the list. -/
def toFunction (r : TypeReading (List TypeId)) (convention : CallingConvention) :
    TypeReading TypeId :=
  match r.found with
  | none => ⟨none, r.problems, r.types⟩
  | some ids =>
    let (id, types) := r.types.intern (.function ids.dropLast (ids.getLast?.getD 0) convention)
    ⟨some id, r.problems, ids.foldl TypeStore.release types⟩

/-- The qualifiers a written pointer has. -/
def qualifiers (isConst isVolatile isMany : Bool) : Qualifiers := { isConst, isVolatile, isMany }

mutual

/-- Reads a type. -/
def ofExpr (file : SourceFile) (types : TypeStore) : TypeExpr → TypeReading TypeId
  | .named name span => ofName file types name span
  | .pointer isConst isVolatile isMany pointee _ =>
    (ofExpr file types pointee).wrap fun p => .pointer p (qualifiers isConst isVolatile isMany)
  | .array length element _ => (ofExpr file types element).wrap fun e => .array e length
  | .function params result _ =>
    let params := ofExprs file ⟨some [], [], types⟩ params
    (params.append (ofExpr file params.types result)).toFunction .unspecified

/-- Reads types one after the other, after those of `before`. -/
def ofExprs (file : SourceFile) (before : TypeReading (List TypeId)) :
    List TypeExpr → TypeReading (List TypeId)
  | [] => before
  | e :: es => ofExprs file (before.append (ofExpr file before.types e)) es

end

/-- Reads the types of a signature: those of the parameters, then that of the result, which
comes last in the list. -/
def ofSignature (file : SourceFile) (types : TypeStore) (f : FunctionItem) :
    TypeReading (List TypeId) :=
  let params := ofExprs file ⟨some [], [], types⟩ (f.params.map (·.type))
  params.append (ofExpr file params.types f.result)

/-- How a function is called: one that is seen from outside in the way of C. -/
def convention (f : FunctionItem) : CallingConvention :=
  if f.isExport || f.isExtern then .c else .unspecified

end TypeReading

end IncrementalBuild
