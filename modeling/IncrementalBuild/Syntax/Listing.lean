import IncrementalBuild.Source.Name
import IncrementalBuild.Syntax.Tree
import IncrementalBuild.Text.Escape

/-!
# Listings of syntax trees

A listing shows every field of every item of a file, one a line, indented by the depth
of what it belongs to. Names are shown as the handles they have in a table of names.
-/

set_option autoImplicit false

namespace IncrementalBuild

/-- What a listing is made of: a word, a name with named fields, a name with one argument,
or a list. -/
inductive Listing where
  | word (text : String)
  | record (name : String) (fields : List (String × Listing))
  | applied (name : String) (argument : Listing)
  | list (items : List Listing)

namespace Listing

/-- The spaces at the start of a line. -/
def indent (depth : Nat) : String := String.ofList (List.replicate (4 * depth) ' ')

mutual

/-- The written form of a listing whose first line stands at a depth. -/
def textAt (depth : Nat) : Listing → String
  | .word text => text
  | .record name fields => name ++ " \x7b\n" ++ fieldsAt (depth + 1) fields ++ indent depth ++ "\x7d"
  | .applied name argument =>
    name ++ "(\n" ++ indent (depth + 1) ++ textAt (depth + 1) argument ++ ",\n" ++ indent depth ++ ")"
  | .list items =>
    if items.isEmpty then "[]" else "[\n" ++ itemsAt (depth + 1) items ++ indent depth ++ "]"

/-- The lines of named fields. -/
def fieldsAt (depth : Nat) : List (String × Listing) → String
  | [] => ""
  | (name, value) :: rest =>
    indent depth ++ name ++ ": " ++ textAt depth value ++ ",\n" ++ fieldsAt depth rest

/-- The lines of the items of a list. -/
def itemsAt (depth : Nat) : List Listing → String
  | [] => ""
  | item :: rest => indent depth ++ textAt depth item ++ ",\n" ++ itemsAt depth rest

end

/-- The written form of a listing. -/
def text (l : Listing) : String := textAt 0 l

/-- A listing of what may be missing. -/
def ofOption : Option Listing → Listing
  | some l => .applied "Some" l
  | none => .word "None"

/-- A listing of a truth value. -/
def ofBool (b : Bool) : Listing := .word (toString b)

/-- A listing of a span. -/
def ofSpan (s : Span) : Listing := .word s.text

/-- A listing of a name. -/
def ofName (names : Interner) (name : String) : Listing := .word (names.nameOf name).text

/-- A listing of what a visibility modifier makes of an item. -/
def ofVisibility (isPublic : Bool) : Listing := .word (if isPublic then "Public" else "Private")

/-- A listing of a block. -/
def ofBlock (s : Span) : Listing := .record "BlockNode" [("span", ofSpan s)]

/-- A listing of a written type. -/
def ofType (names : Interner) : TypeExpr → Listing
  | .named name span => .record "Named" [("name", ofName names name), ("span", ofSpan span)]
  | .pointer isConst isVolatile isMany pointee span =>
    .record "Pointer" [("is_const", ofBool isConst), ("is_volatile", ofBool isVolatile),
      ("many", ofBool isMany), ("pointee", ofType names pointee), ("span", ofSpan span)]
  | .array length element span =>
    .record "Array" [("len", .word (toString length)), ("elem", ofType names element),
      ("span", ofSpan span)]
  | .function params result span =>
    .record "Fn" [("params", .list (params.map (ofType names))), ("ret", ofType names result),
      ("span", ofSpan span)]

/-- A listing of a parameter. -/
def ofParam (names : Interner) (p : Param) : Listing :=
  .record "ParamNode" [("name", ofName names p.name), ("ty", ofType names p.type),
    ("span", ofSpan p.span)]

/-- A listing of an item. -/
def ofItem (names : Interner) : Item → Listing
  | .function f => .applied "Fn" (.record "FnProto"
      [("name", ofOption (f.name.map (ofName names))), ("name_span", ofSpan f.nameSpan),
        ("visibility", ofVisibility f.isPublic), ("is_export", ofBool f.isExport),
        ("is_extern", ofBool f.isExtern), ("params", .list (f.params.map (ofParam names))),
        ("ret", ofType names f.result), ("body", ofOption (f.body.map ofBlock)),
        ("span", ofSpan f.span)])
  | .variable v => .applied "Var" (.record "VarNode"
      [("name", ofName names v.name), ("is_const", ofBool v.isConst),
        ("visibility", ofVisibility v.isPublic), ("ty", ofOption (v.type.map (ofType names))),
        ("span", ofSpan v.span)])
  | .comptime span => .applied "Comptime" (ofBlock span)
  | .test t => .applied "Test" (.record "TestNode"
      [("name", ofOption (t.name.map fun name => .word (quoteText name.toList))),
        ("body", ofBlock t.body), ("span", ofSpan t.span)])

/-- A listing of the items of a file. -/
def ofItems (names : Interner) (items : List Item) : Listing := .list (items.map (ofItem names))

end Listing

end IncrementalBuild
