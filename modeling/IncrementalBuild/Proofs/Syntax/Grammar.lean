import IncrementalBuild.Proofs.Syntax.Offsets
import IncrementalBuild.Syntax.Parser

/-!
# The grammar of a source file

What a list of tokens has to be to spell a type, a parameter, a block or an item, and
which value it spells, said without a reader: no token is looked at before its turn, and
nothing is said about the tokens that come after. A spelling stays one when all its
tokens are moved by a function that keeps their order, and its value moves along.
-/

set_option autoImplicit false

namespace IncrementalBuild

namespace Grammar

/-! ## Runs between delimiters -/

/-- Every delimiter in a run has its partner in it, and the pairs are nested. -/
inductive Balanced : List Token → Prop where
  | nil : Balanced []
  | plain {t : Token} {rest : List Token} :
      t.kind.isOpener = false → t.kind.isCloser = false → Balanced rest → Balanced (t :: rest)
  | nested {opener closer : Token} {inner rest : List Token} :
      opener.kind.closer? = some closer.kind → Balanced inner → Balanced rest →
      Balanced (opener :: (inner ++ closer :: rest))

/-- A balanced run with no semicolon outside of its pairs. -/
inductive Initializer : List Token → Prop where
  | nil : Initializer []
  | plain {t : Token} {rest : List Token} :
      t.kind ≠ .semicolon → t.kind.isOpener = false → t.kind.isCloser = false →
      Initializer rest → Initializer (t :: rest)
  | nested {opener closer : Token} {inner rest : List Token} :
      opener.kind.closer? = some closer.kind → Balanced inner → Initializer rest →
      Initializer (opener :: (inner ++ closer :: rest))

/-- Braces around a balanced run. -/
inductive Block : List Token → Span → Prop where
  | braces {opener closer : Token} {run : List Token} :
      opener.kind = .leftBrace → Balanced run → closer.kind = .rightBrace →
      Block (opener :: (run ++ [closer])) (opener.span.merge closer.span)

/-- Entries separated by commas, one of which may be last, and a closing parenthesis. -/
inductive Entries {α : Type} (P : List Token → α → Prop) : List Token → List α → Prop where
  | close {closer : Token} : closer.kind = .rightParen → Entries P [closer] []
  | last {used : List Token} {a : α} {closer : Token} :
      P used a → closer.kind = .rightParen → Entries P (used ++ [closer]) [a]
  | more {used more : List Token} {a : α} {as : List α} {comma : Token} :
      P used a → comma.kind = .comma → Entries P more as →
      Entries P (used ++ comma :: more) (a :: as)

/-! ## Types -/

/-- Tokens that qualify a pointer. -/
def Qualifiers (used : List Token) : Prop :=
  ∀ t ∈ used, t.kind = .constKeyword ∨ t.kind = .volatileKeyword

/-- Whether there is a token of a kind. -/
def has (kind : TokenKind) (used : List Token) : Bool := used.any (·.kind = kind)

/-- One layer of a type, the types in it being spelled as `P` says. -/
inductive Layer (P : List Token → TypeExpr → Prop) : List Token → TypeExpr → Prop where
  | named {t : Token} : t.kind = .identifier → Layer P [t] (.named t.text t.span)
  | pointer {star : Token} {qualifiers used : List Token} {pointee : TypeExpr} :
      star.kind = .star → Qualifiers qualifiers → P used pointee →
      Layer P (star :: (qualifiers ++ used))
        (.pointer (has .constKeyword qualifiers) (has .volatileKeyword qualifiers) false pointee
          (star.span.merge pointee.span))
  | manyPointer {opener star closer : Token} {qualifiers used : List Token}
      {pointee : TypeExpr} :
      opener.kind = .leftBracket → star.kind = .star → closer.kind = .rightBracket →
      Qualifiers qualifiers → P used pointee →
      Layer P (opener :: star :: closer :: (qualifiers ++ used))
        (.pointer (has .constKeyword qualifiers) (has .volatileKeyword qualifiers) true pointee
          (opener.span.merge pointee.span))
  | array {opener literal closer : Token} {length : Nat} {used : List Token}
      {element : TypeExpr} :
      opener.kind = .leftBracket → literal.kind = .integer →
      literalValue? literal.text = some length → closer.kind = .rightBracket → P used element →
      Layer P (opener :: literal :: closer :: used)
        (.array length element (opener.span.merge element.span))
  | function {keyword opener : Token} {used more : List Token} {params : List TypeExpr}
      {result : TypeExpr} :
      keyword.kind = .fnKeyword → opener.kind = .leftParen → Entries P used params →
      P more result →
      Layer P (keyword :: opener :: (used ++ more))
        (.function params result (keyword.span.merge result.span))

/-- A type of at most so many layers, the innermost name being one. -/
def TypeOf : (levels : Nat) → List Token → TypeExpr → Prop
  | 0 => fun _ _ => False
  | levels + 1 => Layer (TypeOf levels)

/-! ## Items -/

/-- A name, a colon and a type. -/
inductive Parameter : List Token → Param → Prop where
  | typed {name colon : Token} {used : List Token} {type : TypeExpr} :
      name.kind = .identifier → colon.kind = .colon → TypeOf maxTypeDepth used type →
      Parameter (name :: colon :: used)
        { name := name.text, type, span := name.span.merge type.span }

/-- Modifiers, each at most once. -/
structure Modified (used : List Token) : Prop where
  isModifier : ∀ t ∈ used, t.kind ∈ [TokenKind.pubKeyword, .exportKeyword, .externKeyword]
  nodup : (used.map (·.kind)).Nodup

/-- What modifiers say. -/
def modifiersOf (used : List Token) : Modifiers where
  start := used.head?.map (·.span)
  isPublic := has .pubKeyword used
  isExport := has .exportKeyword used
  isExtern := has .externKeyword used

/-- A semicolon or a block, the bytes of the block, and the bytes it all ends with. -/
inductive Body : List Token → Option Span → Span → Prop where
  | missing {t : Token} : t.kind = .semicolon → Body [t] none t.span
  | block {used : List Token} {span : Span} : Block used span → Body used (some span) span

/-- A function after the given modifiers. -/
inductive Function (m : Modifiers) : List Token → FunctionItem → Prop where
  | fn {keyword opener : Token} {name : Option Token} {used more ending : List Token}
      {params : List Param} {result : TypeExpr} {body : Option Span} {stop : Span} :
      keyword.kind = .fnKeyword → (∀ t ∈ name, t.kind = .identifier) →
      opener.kind = .leftParen → Entries Parameter used params →
      TypeOf maxTypeDepth more result → Body ending body stop →
      Function m (keyword :: (name.toList ++ opener :: (used ++ (more ++ ending))))
        { name := name.map (·.text)
          nameSpan := (name.map (·.span)).getD keyword.span
          isPublic := m.isPublic
          isExport := m.isExport
          isExtern := m.isExtern
          params, result, body
          span := (m.start.getD keyword.span).merge stop }

/-- Nothing, or a colon and a type. -/
inductive Annotation : List Token → Option TypeExpr → Prop where
  | none : Annotation [] none
  | typed {colon : Token} {used : List Token} {type : TypeExpr} :
      colon.kind = .colon → TypeOf maxTypeDepth used type → Annotation (colon :: used) (some type)

/-- Nothing, or an equals sign and a run of tokens. -/
inductive Assignment : List Token → Prop where
  | none : Assignment []
  | run {equals : Token} {used : List Token} :
      equals.kind = .equals → Initializer used → Assignment (equals :: used)

/-- A variable after the given modifiers. -/
inductive Variable (m : Modifiers) : List Token → VariableItem → Prop where
  | var {keyword name semicolon : Token} {used more : List Token} {type : Option TypeExpr} :
      keyword.kind = .varKeyword ∨ keyword.kind = .constKeyword → name.kind = .identifier →
      Annotation used type → Assignment more → semicolon.kind = .semicolon →
      Variable m (keyword :: name :: (used ++ (more ++ [semicolon])))
        { name := name.text
          isConst := keyword.kind = .constKeyword
          isPublic := m.isPublic
          type
          span := (m.start.getD keyword.span).merge semicolon.span }

/-- An item. -/
inductive ItemOf : List Token → Item → Prop where
  | comptime {keyword : Token} {used : List Token} {span : Span} :
      keyword.kind = .comptimeKeyword → Block used span →
      ItemOf (keyword :: used) (.comptime (keyword.span.merge span))
  | test {keyword : Token} {name : Option Token} {used : List Token} {body : Span} :
      keyword.kind = .testKeyword → (∀ t ∈ name, t.kind = .string) → Block used body →
      ItemOf (keyword :: (name.toList ++ used))
        (.test { name := name.map (unquoted ·.text), body, span := keyword.span.merge body })
  | fn {used more : List Token} {f : FunctionItem} :
      Modified used → Function (modifiersOf used) more f → ItemOf (used ++ more) (.function f)
  | var {used more : List Token} {v : VariableItem} :
      Modified used → Variable (modifiersOf used) more v → ItemOf (used ++ more) (.variable v)

/-- A file is its items, one after another, each spelled by its own tokens. -/
inductive Derivation : List Token → List (List Token × Item) → Prop where
  | nil : Derivation [] []
  | cons {used more : List Token} {node : Item} {pieces : List (List Token × Item)} :
      ItemOf used node → Derivation more pieces → Derivation (used ++ more) ((used, node) :: pieces)

/-! ## Moving a spelling -/

variable {f : Nat → Nat} {used : List Token}

theorem Balanced.moved (h : Balanced used) : Balanced (used.map (Token.moved f)) := by
  induction h with
  | nil => exact .nil
  | plain hopener hcloser _ ih => exact .plain hopener hcloser ih
  | nested hpair _ _ ihinner ihrest =>
    rw [List.map_cons, List.map_append]
    exact .nested hpair ihinner ihrest

theorem Initializer.moved (h : Initializer used) : Initializer (used.map (Token.moved f)) := by
  induction h with
  | nil => exact .nil
  | plain hkind hopener hcloser _ ih => exact .plain hkind hopener hcloser ih
  | nested hpair hinner _ ih =>
    rw [List.map_cons, List.map_append]
    exact .nested hpair hinner.moved ih

theorem Block.moved (hf : Monotone f) {span : Span} (h : Block used span) :
    Block (used.map (Token.moved f)) (span.moved f) := by
  obtain ⟨hopener, hrun, hcloser⟩ := h
  rw [List.map_cons, List.map_append, Span.moved_merge hf]
  exact .braces hopener hrun.moved hcloser

theorem Entries.moved {α : Type} {P : List Token → α → Prop} {g : α → α}
    (hP : ∀ used a, P used a → P (used.map (Token.moved f)) (g a)) {as : List α}
    (h : Entries P used as) : Entries P (used.map (Token.moved f)) (as.map g) := by
  induction h with
  | close hcloser => exact .close hcloser
  | last ha hcloser =>
    rw [List.map_append]
    exact .last (hP _ _ ha) hcloser
  | more ha hcomma _ ih =>
    rw [List.map_append]
    exact .more (hP _ _ ha) hcomma ih

@[simp]
theorem has_moved (kind : TokenKind) : has kind (used.map (Token.moved f)) = has kind used := by
  simp only [has, List.any_map]
  rfl

theorem Qualifiers.moved (h : Qualifiers used) : Qualifiers (used.map (Token.moved f)) := by
  intro t ht
  obtain ⟨t', ht', rfl⟩ := List.mem_map.1 ht
  exact h t' ht'

theorem Layer.moved (hf : Monotone f) {P : List Token → TypeExpr → Prop}
    (hP : ∀ used e, P used e → P (used.map (Token.moved f)) (e.moved f)) {e : TypeExpr}
    (h : Layer P used e) : Layer P (used.map (Token.moved f)) (e.moved f) := by
  cases h with
  | named hkind =>
    rw [TypeExpr.moved]
    exact .named hkind
  | pointer hstar hqualifiers hused =>
    rw [TypeExpr.moved, Span.moved_merge hf, ← TypeExpr.span_moved, List.map_cons,
      List.map_append, ← has_moved (f := f), ← has_moved (f := f) .volatileKeyword]
    exact .pointer hstar hqualifiers.moved (hP _ _ hused)
  | manyPointer hopener hstar hcloser hqualifiers hused =>
    rw [TypeExpr.moved, Span.moved_merge hf, ← TypeExpr.span_moved, List.map_cons,
      List.map_cons, List.map_cons, List.map_append, ← has_moved (f := f),
      ← has_moved (f := f) .volatileKeyword]
    exact .manyPointer hopener hstar hcloser hqualifiers.moved (hP _ _ hused)
  | array hopener hliteral hlength hcloser hused =>
    rw [TypeExpr.moved, Span.moved_merge hf, ← TypeExpr.span_moved]
    exact .array hopener hliteral hlength hcloser (hP _ _ hused)
  | function hkeyword hopener hparams hresult =>
    rw [TypeExpr.moved, Span.moved_merge hf, ← TypeExpr.span_moved, List.map_cons,
      List.map_cons, List.map_append]
    exact .function hkeyword hopener (hparams.moved hP) (hP _ _ hresult)

theorem TypeOf.moved (hf : Monotone f) {levels : Nat} {e : TypeExpr} (h : TypeOf levels used e) :
    TypeOf levels (used.map (Token.moved f)) (e.moved f) := by
  induction levels generalizing used e with
  | zero => exact h
  | succ levels ih => exact Layer.moved hf (fun _ _ hused => ih hused) h

theorem Parameter.moved (hf : Monotone f) {p : Param} (h : Parameter used p) :
    Parameter (used.map (Token.moved f)) (p.moved f) := by
  obtain ⟨hname, hcolon, htype⟩ := h
  rw [Param.moved, Span.moved_merge hf, ← TypeExpr.span_moved]
  exact .typed hname hcolon (htype.moved hf)

theorem Modified.moved (h : Modified used) : Modified (used.map (Token.moved f)) where
  isModifier := by
    intro t ht
    obtain ⟨t', ht', rfl⟩ := List.mem_map.1 ht
    exact h.isModifier t' ht'
  nodup := by
    rw [List.map_map]
    exact h.nodup

theorem modifiersOf_moved :
    modifiersOf (used.map (Token.moved f)) =
      { modifiersOf used with start := (modifiersOf used).start.map (Span.moved f) } := by
  simp only [modifiersOf, has_moved, List.head?_map, Option.map_map]
  rfl

theorem Body.moved (hf : Monotone f) {body : Option Span} {stop : Span}
    (h : Body used body stop) :
    Body (used.map (Token.moved f)) (body.map (Span.moved f)) (stop.moved f) := by
  cases h with
  | missing hkind => exact .missing hkind
  | block hblock => exact .block (hblock.moved hf)

theorem Function.moved (hf : Monotone f) {m : Modifiers} {item : FunctionItem}
    (h : Function m used item) :
    Function { m with start := m.start.map (Span.moved f) } (used.map (Token.moved f))
      (item.moved f) := by
  obtain ⟨hkeyword, hname, hopener, hparams, hresult, hbody⟩ := h
  rename_i keyword opener name used more ending params result body stop
  have hname' : ∀ t ∈ name.map (Token.moved f), t.kind = .identifier := by
    intro t ht
    obtain ⟨t', ht', rfl⟩ := Option.map_eq_some_iff.1 ht
    exact hname t' ht'
  have hmoved := @Function.fn { m with start := m.start.map (Span.moved f) } (keyword.moved f)
    (opener.moved f) _ _ _ _ _ _ _ _ hkeyword hname' hopener
    (hparams.moved fun _ _ hp => hp.moved hf) (hresult.moved hf) (hbody.moved hf)
  simp only [Option.map_map] at hmoved
  simp only [List.map_cons, List.map_append, FunctionItem.moved, Span.moved_merge hf,
    ← Option.getD_map (Span.moved f), Option.map_map, ← Option.toList_map]
  exact hmoved

theorem Annotation.moved (hf : Monotone f) {type : Option TypeExpr} (h : Annotation used type) :
    Annotation (used.map (Token.moved f)) (type.map (TypeExpr.moved f)) := by
  cases h with
  | none => exact .none
  | typed hcolon htype => exact .typed hcolon (htype.moved hf)

theorem Assignment.moved (h : Assignment used) : Assignment (used.map (Token.moved f)) := by
  cases h with
  | none => exact .none
  | run hequals hused => exact .run hequals hused.moved

theorem Variable.moved (hf : Monotone f) {m : Modifiers} {item : VariableItem}
    (h : Variable m used item) :
    Variable { m with start := m.start.map (Span.moved f) } (used.map (Token.moved f))
      (item.moved f) := by
  obtain ⟨hkeyword, hname, htype, hassignment, hsemicolon⟩ := h
  simp only [List.map_cons, List.map_append, VariableItem.moved, Span.moved_merge hf,
    ← Option.getD_map (Span.moved f)]
  exact .var hkeyword hname (htype.moved hf) hassignment.moved hsemicolon

/-- An item that is moved in order is spelled by its tokens, moved likewise. -/
theorem ItemOf.moved (hf : Monotone f) {item : Item} (h : ItemOf used item) :
    ItemOf (used.map (Token.moved f)) (item.moved f) := by
  cases h with
  | comptime hkeyword hblock =>
    rw [Item.moved, Span.moved_merge hf]
    exact .comptime hkeyword (hblock.moved hf)
  | test hkeyword hname hblock =>
    rename_i keyword name used body
    have hname' : ∀ t ∈ name.map (Token.moved f), t.kind = .string := by
      intro t ht
      obtain ⟨t', ht', rfl⟩ := Option.map_eq_some_iff.1 ht
      exact hname t' ht'
    have hmoved := @ItemOf.test (keyword.moved f) _ _ _ hkeyword hname' (hblock.moved hf)
    simp only [Option.map_map] at hmoved
    simp only [Item.moved, TestItem.moved, Span.moved_merge hf, List.map_cons, List.map_append,
      ← Option.toList_map]
    exact hmoved
  | fn hmodified hfunction =>
    have hmoved := hfunction.moved hf
    rw [← modifiersOf_moved] at hmoved
    rw [List.map_append]
    exact .fn hmodified.moved hmoved
  | var hmodified hvariable =>
    have hmoved := hvariable.moved hf
    rw [← modifiersOf_moved] at hmoved
    rw [List.map_append]
    exact .var hmodified.moved hmoved

end Grammar

end IncrementalBuild
