import IncrementalBuild.Proofs.Syntax.Joining
import IncrementalBuild.Proofs.Syntax.Moving

/-!
# Texts are parsed line by line

What stands on whole lines is parsed as if it stood alone. A text whose items are complete and
a text on the lines after it give the items of both, the later ones moved, and the error of the
later text, moved too. So lines with complete items, or with comments only, can be put in, taken
out and exchanged without a change to any other item.

## Main results

* `parse_append_newline`: two texts, the first without an error.
* `parse_intercalate_newline`: any number of texts without errors.
* `parse_comment`: a comment is a text without items.
-/

set_option autoImplicit false

namespace IncrementalBuild

open Grammar

/-! ## Moving twice -/

section

variable (f g : Nat → Nat)

theorem TypeExpr.moved_moved (e : TypeExpr) : (e.moved f).moved g = e.moved (g ∘ f) := by
  fun_induction moved f e with
  | case1 name span => simp only [moved]; rfl
  | case2 isConst isVolatile isMany pointee span ih => rw [moved, moved, ih]; rfl
  | case3 length element span ih => rw [moved, moved, ih]; rfl
  | case4 params result span ihparams ihresult =>
    rw [moved, moved, ihresult, List.map_map]
    have hparams : params.map (moved g ∘ moved f) = params.map (moved (g ∘ f)) :=
      List.map_congr_left ihparams
    rw [hparams]
    rfl

theorem Param.moved_moved (p : Param) : (p.moved f).moved g = p.moved (g ∘ f) := by
  rw [moved, moved, moved, TypeExpr.moved_moved]
  rfl

theorem Item.moved_moved (item : Item) : (item.moved f).moved g = item.moved (g ∘ f) := by
  have hspan : Span.moved g ∘ Span.moved f = Span.moved (g ∘ f) := rfl
  have htype : TypeExpr.moved g ∘ TypeExpr.moved f = TypeExpr.moved (g ∘ f) :=
    funext (TypeExpr.moved_moved f g)
  have hparam : Param.moved g ∘ Param.moved f = Param.moved (g ∘ f) :=
    funext (Param.moved_moved f g)
  obtain item | item | span | item := item
  · simp only [moved, FunctionItem.moved, TypeExpr.moved_moved, List.map_map, hparam,
      Option.map_map, hspan]
    rfl
  · simp only [moved, VariableItem.moved, Option.map_map, htype]
    rfl
  · rfl
  · rfl

end

/-! ## Two texts -/

/-- A text is parsed without an error if it has tokens that spell items. -/
theorem exists_lexes_of_error_eq_none {text : String} (h : (parse text).error = none) :
    ∃ tokens pieces, Lexes 0 text.toList tokens ∧ Derivation tokens pieces := by
  rw [parse, lex] at h
  cases hlex : lexFrom 0 text.toList with
  | error e => simp [hlex] at h
  | ok tokens =>
    rw [hlex] at h
    obtain ⟨pieces, hpieces⟩ := exists_derivation_of_error_eq_none le_rfl h
    exact ⟨tokens, pieces, lexFrom_eq_ok.1 hlex, hpieces⟩

theorem parse_of_lexes {text : String} {tokens : List Token} (h : Lexes 0 text.toList tokens) :
    parse text = itemsOf text.utf8ByteSize tokens := by
  rw [parse, lex, lexFrom_eq_ok.2 h]

/-- Two texts in one, the first without an error and the second on the lines after it. -/
theorem parse_append_newline {a b : String} (ha : (parse a).error = none)
    (hb : (lex b).isOk = true) :
    parse (a ++ "\n" ++ b) =
      { items := (parse a).items ++ (parse b).items.map (Item.moved (· + (a.utf8ByteSize + 1)))
        error := (parse b).error.map (SyntaxError.moved (· + (a.utf8ByteSize + 1)))
        names := (parse a).names ++ (parse b).names } := by
  obtain ⟨ta, pieces, hta, hpieces⟩ := exists_lexes_of_error_eq_none ha
  obtain ⟨tb, htb⟩ : ∃ tb, lex b = .ok tb := by
    cases hlex : lex b with
    | error e => rw [hlex] at hb; cases hb
    | ok tb => exact ⟨tb, rfl⟩
  rw [lex, lexFrom_eq_ok] at htb
  have hmono : Monotone (· + (a.utf8ByteSize + 1)) := fun _ _ hle => Nat.add_le_add_right hle _
  have htext : (a ++ "\n" ++ b).toList = a.toList ++ '\n' :: b.toList := by
    rw [String.toList_append, String.toList_append, List.append_assoc]
    rfl
  have hsize : (a ++ "\n" ++ b).utf8ByteSize = b.utf8ByteSize + (a.utf8ByteSize + 1) := by
    simp only [← utf8Length_toList, htext, utf8Length_append]
    rw [← List.singleton_append, utf8Length_append]
    show _ + (1 + _) = _
    omega
  have htokens : Lexes 0 (a ++ "\n" ++ b).toList
      (ta ++ tb.map (Token.moved (· + (a.utf8ByteSize + 1)))) := by
    rw [htext]
    refine hta.join_lines (htb.moved fun n => ?_)
    rw [utf8Length_toList]
    omega
  rw [parse_of_lexes htokens, itemsOf_append hpieces, hsize, parse_of_lexes hta, parse_of_lexes htb,
    ← List.append_nil ta, itemsOf_append hpieces]
  rw [itemsOf, itemsWithin_moved hmono, List.length_map, ← itemsOf]
  simp [Outline.moved, itemsOf, itemsWithin]

/-! ## Any number of lines -/

/-- The items of an outline, wherever they stand. -/
def Outline.content (o : Outline) : List Item := o.items.map (Item.moved fun _ => 0)

theorem lex_isOk_of_error_eq_none {text : String} (h : (parse text).error = none) :
    (lex text).isOk = true := by
  obtain ⟨tokens, pieces, htokens, -⟩ := exists_lexes_of_error_eq_none h
  rw [lex, lexFrom_eq_ok.2 htokens]
  rfl

theorem content_append_newline {a b : String} (ha : (parse a).error = none)
    (hb : (lex b).isOk = true) :
    (parse (a ++ "\n" ++ b)).content = (parse a).content ++ (parse b).content := by
  have hmoved : Item.moved (fun _ => 0) ∘ Item.moved (· + (a.utf8ByteSize + 1)) =
      Item.moved fun _ => 0 := funext (Item.moved_moved _ _)
  rw [parse_append_newline ha hb]
  simp only [Outline.content, List.map_append, List.map_map, hmoved]

/-- Texts one under another, each with whole items only. -/
theorem parse_intercalate_newline {texts : List String}
    (h : ∀ text ∈ texts, (parse text).error = none) :
    (parse ("\n".intercalate texts)).error = none ∧
      (parse ("\n".intercalate texts)).content =
        texts.flatMap fun text => (parse text).content := by
  induction texts with
  | nil =>
    have hempty : parse "" = {} := @parse_of_lexes "" [] (.nil 0)
    rw [String.intercalate_nil, hempty]
    exact ⟨rfl, rfl⟩
  | cons a texts ih =>
    obtain ⟨ha, htexts⟩ := List.forall_mem_cons.1 h
    cases texts with
    | nil => simpa using ha
    | cons b texts =>
      obtain ⟨herror, hcontent⟩ := ih htexts
      have hlex := lex_isOk_of_error_eq_none herror
      rw [String.intercalate_cons_cons, List.flatMap_cons, ← hcontent,
        content_append_newline ha hlex, parse_append_newline ha hlex, herror]
      exact ⟨rfl, rfl⟩

/-- A comment is a text without items. -/
theorem parse_comment {s : String} (hs : '\n' ∉ s.toList) : parse ("//" ++ s) = {} := by
  have hline : ('/' :: s.toList).takeWhile (· != '\n') = '/' :: s.toList := by
    refine List.takeWhile_eq_self_iff.2 fun c hc => ?_
    simp only [bne_iff_ne]
    rintro rfl
    simp [hs] at hc
  have htokens : Lexes 0 ("//" ++ s).toList [] := by
    have htext : ("//" ++ s).toList = '/' :: (('/' :: s.toList) ++ []) := by
      rw [String.toList_append, List.append_nil]
      rfl
    rw [htext]
    refine .gap ?_ (.nil _)
    rw [Lexeme.scan, List.append_nil, hline]
    rfl
  exact parse_of_lexes htokens

end IncrementalBuild
