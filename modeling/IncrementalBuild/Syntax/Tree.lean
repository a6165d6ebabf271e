import IncrementalBuild.Source.Span

/-!
# The top level of a source file

What a build needs of a file: which declarations it has, their names, signatures
and byte ranges. Bodies stay unread; an item only records where its body is.
-/

set_option autoImplicit false

namespace IncrementalBuild

/-- A type as it is written in a signature. -/
inductive TypeExpr where
  | named (name : String) (span : Span)
  | pointer (isConst isVolatile isMany : Bool) (pointee : TypeExpr) (span : Span)
  | array (length : Nat) (element : TypeExpr) (span : Span)
  | function (params : List TypeExpr) (result : TypeExpr) (span : Span)
  deriving Inhabited

/-- The bytes a written type covers. -/
def TypeExpr.span : TypeExpr → Span
  | .named _ span => span
  | .pointer _ _ _ _ span => span
  | .array _ _ span => span
  | .function _ _ span => span

/-- A parameter of a function: a name and a type. -/
structure Param where
  name : String
  type : TypeExpr
  span : Span
  deriving Inhabited

/-- A function, with or without a body. -/
structure FunctionItem where
  /-- Missing if the source leaves the name out. -/
  name : Option String
  /-- The name, or the `fn` keyword if there is no name. -/
  nameSpan : Span
  isPublic : Bool
  isExport : Bool
  isExtern : Bool
  params : List Param
  result : TypeExpr
  /-- The block with its braces. -/
  body : Option Span
  /-- From the first modifier to the closing brace or semicolon. -/
  span : Span
  deriving Inhabited

/-- A variable or constant. -/
structure VariableItem where
  name : String
  isConst : Bool
  isPublic : Bool
  type : Option TypeExpr
  span : Span
  deriving Inhabited

/-- A test block. -/
structure TestItem where
  name : Option String
  body : Span
  span : Span
  deriving Inhabited

/-- A declaration at the top level of a file. -/
inductive Item where
  | function (f : FunctionItem)
  | variable (v : VariableItem)
  | comptime (span : Span)
  | test (t : TestItem)
  deriving Inhabited

/-- The bytes an item covers. -/
def Item.span : Item → Span
  | .function f => f.span
  | .variable v => v.span
  | .comptime span => span
  | .test t => t.span

/-- One revision of a source file: where it is, what it says and what it declares. -/
structure SourceFile where
  path : String
  text : String
  items : List Item
  deriving Inhabited

end IncrementalBuild
