import IncrementalBuild.Syntax.Token
import IncrementalBuild.Syntax.Tree
import Mathlib.Order.MinMax

/-!
# Moved trees and the names in a tree

A tree is moved by a function on offsets, which acts on every span in it and leaves
the rest alone. The names of a tree are those its reading reports, in the same order.
-/

set_option autoImplicit false

namespace IncrementalBuild

/-! ## Moving -/

/-- The span with both ends moved. -/
def Span.moved (f : Nat → Nat) (s : Span) : Span := ⟨f s.start, f s.stop⟩

/-- The token with its place moved. -/
def Token.moved (f : Nat → Nat) (t : Token) : Token := { t with span := t.span.moved f }

/-- The written type with every place in it moved. -/
def TypeExpr.moved (f : Nat → Nat) : TypeExpr → TypeExpr
  | .named name span => .named name (span.moved f)
  | .pointer isConst isVolatile isMany pointee span =>
    .pointer isConst isVolatile isMany (pointee.moved f) (span.moved f)
  | .array length element span => .array length (element.moved f) (span.moved f)
  | .function params result span =>
    .function (params.map (moved f)) (result.moved f) (span.moved f)

/-- The parameter with every place in it moved. -/
def Param.moved (f : Nat → Nat) (p : Param) : Param :=
  { p with type := p.type.moved f, span := p.span.moved f }

/-- The function with every place in it moved. -/
def FunctionItem.moved (f : Nat → Nat) (item : FunctionItem) : FunctionItem :=
  { item with
    nameSpan := item.nameSpan.moved f
    params := item.params.map (Param.moved f)
    result := item.result.moved f
    body := item.body.map (Span.moved f)
    span := item.span.moved f }

/-- The variable with every place in it moved. -/
def VariableItem.moved (f : Nat → Nat) (item : VariableItem) : VariableItem :=
  { item with type := item.type.map (TypeExpr.moved f), span := item.span.moved f }

/-- The test with every place in it moved. -/
def TestItem.moved (f : Nat → Nat) (item : TestItem) : TestItem :=
  { item with body := item.body.moved f, span := item.span.moved f }

/-- The item with every place in it moved. -/
def Item.moved (f : Nat → Nat) : Item → Item
  | .function item => .function (item.moved f)
  | .variable item => .variable (item.moved f)
  | .comptime span => .comptime (span.moved f)
  | .test item => .test (item.moved f)

/-- Moving in order keeps what lies around what. -/
theorem Span.moved_merge {f : Nat → Nat} (hf : Monotone f) (s t : Span) :
    (s.merge t).moved f = (s.moved f).merge (t.moved f) := by
  simp only [moved, merge, hf.map_min, hf.map_max]

@[simp]
theorem TypeExpr.span_moved (f : Nat → Nat) (e : TypeExpr) :
    (e.moved f).span = e.span.moved f := by
  cases e <;> simp only [moved, span]

@[simp]
theorem Item.span_moved (f : Nat → Nat) (item : Item) :
    (item.moved f).span = item.span.moved f := by
  cases item <;> rfl

/-! ## Names -/

/-- The names a written type mentions, from left to right. -/
def TypeExpr.names : TypeExpr → List String
  | .named name _ => [name]
  | .pointer _ _ _ pointee _ => pointee.names
  | .array _ element _ => element.names
  | .function params result _ => params.flatMap names ++ result.names

/-- The name of a parameter and those its type mentions. -/
def Param.names (p : Param) : List String := p.name :: p.type.names

/-- The names an item mentions outside of its blocks, from left to right. -/
def Item.names : Item → List String
  | .function f => f.name.toList ++ f.params.flatMap Param.names ++ f.result.names
  | .variable v => v.name :: (v.type.map TypeExpr.names).getD []
  | .comptime _ => []
  | .test _ => []

@[simp]
theorem TypeExpr.names_moved (f : Nat → Nat) (e : TypeExpr) : (e.moved f).names = e.names := by
  fun_induction moved f e with
  | case1 name span => rw [names, names]
  | case2 isConst isVolatile isMany pointee span ih => rw [names, names, ih]
  | case3 length element span ih => rw [names, names, ih]
  | case4 params result span ihparams ihresult =>
    have hparams : (params.map (moved f)).flatMap names = params.flatMap names := by
      rw [List.flatMap_map, List.flatMap_def, List.flatMap_def, List.map_congr_left ihparams]
    rw [names, names, ihresult, hparams]

@[simp]
theorem Item.names_moved (f : Nat → Nat) (item : Item) : (item.moved f).names = item.names := by
  rcases item with f' | v | span | t
  · have hparams : ∀ p : Param, (p.moved f).names = p.names := fun p => by
      rw [Param.names, Param.names, Param.moved, TypeExpr.names_moved]
    simp only [moved, names, FunctionItem.moved, TypeExpr.names_moved, List.flatMap_map, hparams]
  · cases htype : v.type <;> simp [moved, names, VariableItem.moved, htype]
  · rfl
  · rfl

end IncrementalBuild
