import IncrementalBuild.Proofs.Syntax.Munch
import IncrementalBuild.Syntax.Parser

/-!
# Spans lie in the text that was read

The tokens of a text lie in it, each over the bytes of its own text. A parse keeps the places it
is given: all that it reports, be it an item, a part of one or an error, covers bytes from one
token to another, or stands at the end of the text.
-/

set_option autoImplicit false

namespace IncrementalBuild

/-- A span lies in a run of bytes. -/
structure Span.LiesIn (s : Span) (bytes : Bytes) : Prop where
  start_le_stop : s.start ≤ s.stop
  stop_le : s.stop ≤ bytes.length

namespace Span

variable {s t : Span} {bytes : Bytes}

theorem LiesIn.merge (hs : s.LiesIn bytes) (ht : t.LiesIn bytes) : (s.merge t).LiesIn bytes := by
  obtain ⟨hle, hstop⟩ := hs
  obtain ⟨-, hstop'⟩ := ht
  constructor
  · show min s.start t.start ≤ max s.stop t.stop
    omega
  · show max s.stop t.stop ≤ bytes.length
    omega

theorem LiesIn.getD {first : Option Span} (hfirst : ∀ s ∈ first, s.LiesIn bytes)
    (ht : t.LiesIn bytes) : (first.getD t).LiesIn bytes := by
  cases first with
  | none => exact ht
  | some s => exact hfirst s rfl

theorem liesIn_end (bytes : Bytes) : (point bytes.length).LiesIn bytes :=
  ⟨Nat.le_refl _, Nat.le_refl _⟩

end Span

/-- A token lies in a run of bytes, over those of its text. -/
structure Token.LiesIn (t : Token) (bytes : Bytes) : Prop where
  span : t.span.LiesIn bytes
  text : slice bytes t.span = bytesOf t.text

/-- The places of an error lie in a run of bytes. -/
structure SyntaxError.LiesIn (e : SyntaxError) (bytes : Bytes) : Prop where
  span : e.span.LiesIn bytes
  openedAt : ∀ s ∈ e.openedAt, s.LiesIn bytes

/-- An error without an open delimiter lies where it is. -/
theorem SyntaxError.liesIn_of_span {cause : SyntaxCause} {span : Span} {bytes : Bytes}
    (h : span.LiesIn bytes) : SyntaxError.LiesIn { cause, span } bytes :=
  ⟨h, fun _ hs => absurd hs (Option.not_mem_none _)⟩

/-- A written type and its parts lie in a run of bytes. -/
inductive TypeExpr.LiesIn (bytes : Bytes) : TypeExpr → Prop where
  | named {name : String} {span : Span} : span.LiesIn bytes → LiesIn bytes (.named name span)
  | pointer {isConst isVolatile isMany : Bool} {pointee : TypeExpr} {span : Span} :
      LiesIn bytes pointee → span.LiesIn bytes →
      LiesIn bytes (.pointer isConst isVolatile isMany pointee span)
  | array {length : Nat} {element : TypeExpr} {span : Span} :
      LiesIn bytes element → span.LiesIn bytes → LiesIn bytes (.array length element span)
  | function {params : List TypeExpr} {result : TypeExpr} {span : Span} :
      (∀ p ∈ params, LiesIn bytes p) → LiesIn bytes result → span.LiesIn bytes →
      LiesIn bytes (.function params result span)

theorem TypeExpr.LiesIn.span {bytes : Bytes} {e : TypeExpr} (h : e.LiesIn bytes) :
    e.span.LiesIn bytes := by
  cases h with
  | named hspan => exact hspan
  | pointer _ hspan => exact hspan
  | array _ hspan => exact hspan
  | function _ _ hspan => exact hspan

/-- A function and its parts lie in a run of bytes, and where its name is said to be there is its
name. -/
structure FunctionItem.LiesIn (f : FunctionItem) (bytes : Bytes) : Prop where
  span : f.span.LiesIn bytes
  nameSpan : f.nameSpan.LiesIn bytes
  named : ∀ name ∈ f.name, slice bytes f.nameSpan = bytesOf name
  params : ∀ p ∈ f.params, p.type.LiesIn bytes
  result : f.result.LiesIn bytes
  body : ∀ b ∈ f.body, b.LiesIn bytes

/-- An item lies in a run of bytes. -/
def Item.LiesIn (bytes : Bytes) : Item → Prop
  | .function f => f.LiesIn bytes
  | .variable v => v.span.LiesIn bytes
  | .comptime span => span.LiesIn bytes
  | .test t => t.span.LiesIn bytes

/-! ## What a reader yields -/

section

variable {α : Type} {bytes : Bytes}

/-- An attempt on tokens that lie in a run of bytes leaves such tokens, and what it yields is as
`P` says; if it fails, its error lies there too. -/
def Keeps (bytes : Bytes) (P : α → Prop) : Except SyntaxError (α × List Token) → Prop
  | .ok (a, rest) => P a ∧ ∀ t ∈ rest, t.LiesIn bytes
  | .error e => e.LiesIn bytes

/-- A reader of tokens that lie in a run of bytes leaves such tokens, and what it yields is as `P`
says; if it fails, its error lies there too. -/
def Reader.Yields (bytes : Bytes) (r : Reader α) (P : α → Prop) : Prop :=
  ∀ tokens, (∀ t ∈ tokens, t.LiesIn bytes) →
    match r bytes.length tokens with
    | .done a _ rest => P a ∧ ∀ t ∈ rest, t.LiesIn bytes
    | .failed e _ => e.LiesIn bytes

end

namespace Reader

variable {α β : Type} {bytes : Bytes} {r : Reader α} {P Q : α → Prop}

theorem Yields.pure {a : α} (h : P a) : (pure a : Reader α).Yields bytes P :=
  fun _ htokens => ⟨h, htokens⟩

/-- What the first of two readers yields is known when the second one starts. -/
theorem Yields.bind {f : α → Reader β} {P : β → Prop} (hr : r.Yields bytes Q)
    (hf : ∀ a, Q a → (f a).Yields bytes P) : (r >>= f).Yields bytes P := by
  intro tokens htokens
  have hfirst := hr tokens htokens
  show match Reader.bind r f bytes.length tokens with
    | .done b _ rest => P b ∧ ∀ t ∈ rest, t.LiesIn bytes
    | .failed e _ => e.LiesIn bytes
  unfold Reader.bind
  cases hread : r bytes.length tokens with
  | failed e names =>
    rw [hread] at hfirst
    exact hfirst
  | done a names middle =>
    rw [hread] at hfirst
    obtain ⟨ha, hmiddle⟩ := hfirst
    have hsecond := hf a ha middle hmiddle
    dsimp only
    cases hnext : f a bytes.length middle with
    | failed e more =>
      rw [hnext] at hsecond
      exact hsecond
    | done b more rest =>
      rw [hnext] at hsecond
      exact hsecond

theorem Yields.discard (h : r.Yields bytes Q) : (discard r).Yields bytes fun _ => True := by
  show (r >>= fun _ => Pure.pure PUnit.unit).Yields bytes fun _ => True
  exact h.bind fun _ _ => Yields.pure trivial

theorem fail_yields {cause : SyntaxCause} {span : Span} (h : span.LiesIn bytes) :
    (fail cause span : Reader α).Yields bytes P := fun _ _ => SyntaxError.liesIn_of_span h

theorem ofTokens_yields {f : List Token → Except SyntaxError (α × List Token)}
    (h : ∀ tokens, (∀ t ∈ tokens, t.LiesIn bytes) → Keeps bytes P (f tokens)) :
    (ofTokens f).Yields bytes P := by
  intro tokens htokens
  have hf := h tokens htokens
  unfold ofTokens
  cases hread : f tokens with
  | error e =>
    rw [hread] at hf
    exact hf
  | ok answer =>
    rw [hread] at hf
    exact hf

theorem peek_yields : peek.Yields bytes fun _ => True := fun _ htokens => ⟨trivial, htokens⟩

theorem here_yields : here.Yields bytes fun s => s.LiesIn bytes := by
  intro tokens htokens
  refine ⟨?_, htokens⟩
  cases tokens with
  | nil => exact Span.liesIn_end bytes
  | cons t rest => exact (htokens t (List.mem_cons_self ..)).span

theorem mention_yields (name : String) : (mention name).Yields bytes fun _ => True :=
  fun _ htokens => ⟨trivial, htokens⟩

theorem eat_yields (kind : TokenKind) :
    (eat kind).Yields bytes fun found => ∀ t ∈ found, t.LiesIn bytes := by
  intro tokens htokens
  cases tokens with
  | nil => exact ⟨fun _ ht => absurd ht (Option.not_mem_none _), htokens⟩
  | cons t rest =>
    obtain ⟨ht, hrest⟩ := List.forall_mem_cons.1 htokens
    unfold eat
    dsimp only
    by_cases hkind : t.kind = kind
    · rw [if_pos hkind]
      refine ⟨fun u hu => ?_, hrest⟩
      rwa [← Option.some.inj hu]
    · rw [if_neg hkind]
      exact ⟨fun _ hu => absurd hu (Option.not_mem_none _), htokens⟩

theorem expectOr_yields (kind : TokenKind) (cause : Option TokenKind → SyntaxCause) :
    (expectOr kind cause).Yields bytes fun t => t.LiesIn bytes := by
  apply (eat_yields kind).bind
  intro found hfound
  cases found with
  | some t => exact Yields.pure (hfound t rfl)
  | none =>
    apply peek_yields.bind
    intro kind' _
    apply here_yields.bind
    intro span hspan
    exact fail_yields hspan

theorem expect_yields (kind : TokenKind) : (expect kind).Yields bytes fun t => t.LiesIn bytes :=
  expectOr_yields kind _

theorem identifier_yields : identifier.Yields bytes fun found =>
    found.2.LiesIn bytes ∧ slice bytes found.2 = bytesOf found.1 := by
  apply (expectOr_yields _ _).bind
  intro t ht
  apply (mention_yields _).bind
  intro _ _
  exact Yields.pure ⟨ht.span, ht.text⟩

theorem entriesWithin_yields {entry : Reader α} (h : entry.Yields bytes P) (fuel : Nat) :
    (entriesWithin entry fuel).Yields bytes fun found => ∀ a ∈ found, P a := by
  induction fuel with
  | zero =>
    apply peek_yields.bind
    intro kind _
    apply here_yields.bind
    intro span hspan
    exact fail_yields hspan
  | succ fuel ih =>
    apply (eat_yields _).bind
    intro closer _
    have hentry : (do
        let a ← entry
        if (← eat .comma).isSome then return a :: (← entriesWithin entry fuel)
        discard <| expect .rightParen
        return [a] : Reader (List α)).Yields bytes fun found => ∀ a ∈ found, P a := by
      apply h.bind
      intro a ha
      apply (eat_yields _).bind
      intro comma _
      cases comma with
      | some t =>
        apply ih.bind
        intro more hmore
        exact Yields.pure (List.forall_mem_cons.2 ⟨ha, hmore⟩)
      | none =>
        apply (expect_yields _).discard.bind
        intro _ _
        apply Yields.pure
        simpa using ha
    cases closer with
    | some t => exact Yields.pure fun _ hb => absurd hb List.not_mem_nil
    | none => exact hentry

theorem entries_yields {entry : Reader α} (h : entry.Yields bytes P) :
    (entries entry).Yields bytes fun found => ∀ a ∈ found, P a :=
  fun tokens htokens => entriesWithin_yields h (tokens.length + 1) tokens htokens

/-! ## Runs between delimiters -/

theorem closing_keeps {innermost : Token} {outer tokens : List Token}
    (hinnermost : innermost.LiesIn bytes) (houter : ∀ t ∈ outer, t.LiesIn bytes)
    (htokens : ∀ t ∈ tokens, t.LiesIn bytes) :
    Keeps bytes (fun t => t.LiesIn bytes) (closing innermost outer tokens) := by
  induction tokens generalizing innermost outer with
  | nil => exact SyntaxError.liesIn_of_span hinnermost.span
  | cons t rest ih =>
    obtain ⟨ht, hrest⟩ := List.forall_mem_cons.1 htokens
    unfold closing
    split
    · exact ih ht (List.forall_mem_cons.2 ⟨hinnermost, houter⟩) hrest
    · split
      · split
        · cases outer with
          | nil => exact ⟨ht, hrest⟩
          | cons next outer =>
            obtain ⟨hnext, houter⟩ := List.forall_mem_cons.1 houter
            exact ih hnext houter hrest
        · refine ⟨ht.span, fun s hs => ?_⟩
          rw [← Option.some.inj hs]
          exact hinnermost.span
      · exact ih hinnermost houter hrest

theorem initializerRest_keeps {tokens : List Token} (htokens : ∀ t ∈ tokens, t.LiesIn bytes) :
    Keeps bytes (fun _ => True) ((initializerRest tokens).map (((), ·))) := by
  fun_induction initializerRest tokens with
  | case1 => exact ⟨trivial, htokens⟩
  | case2 t rest hkind => exact ⟨trivial, htokens⟩
  | case3 t rest hkind hcloser =>
    exact SyntaxError.liesIn_of_span (htokens t (List.mem_cons_self ..)).span
  | case4 t rest hkind hcloser hopener closer more hclosing ih =>
    obtain ⟨ht, hrest⟩ := List.forall_mem_cons.1 htokens
    have hkept := closing_keeps ht (fun _ hu => absurd hu List.not_mem_nil) hrest
    rw [hclosing] at hkept
    exact ih hkept.2
  | case5 t rest hkind hcloser hopener e hclosing =>
    obtain ⟨ht, hrest⟩ := List.forall_mem_cons.1 htokens
    have hkept := closing_keeps ht (fun _ hu => absurd hu List.not_mem_nil) hrest
    rw [hclosing] at hkept
    exact hkept
  | case6 t rest hkind hcloser hopener ih => exact ih (List.forall_mem_cons.1 htokens).2

theorem block_yields : block.Yields bytes fun span => span.LiesIn bytes := by
  apply (expect_yields _).bind
  intro opener hopener
  have hcloser : (ofTokens (closing opener [])).Yields bytes fun t => t.LiesIn bytes :=
    ofTokens_yields fun _ htokens =>
      closing_keeps hopener (fun _ hu => absurd hu List.not_mem_nil) htokens
  apply hcloser.bind
  intro closer hcloser
  exact Yields.pure (hopener.span.merge hcloser.span)

/-! ## Types -/

theorem qualifiers_keeps {isConst isVolatile : Bool} {tokens : List Token}
    (htokens : ∀ t ∈ tokens, t.LiesIn bytes) :
    Keeps bytes (fun _ => True) (qualifiers isConst isVolatile tokens) := by
  induction tokens generalizing isConst isVolatile with
  | nil => exact ⟨trivial, htokens⟩
  | cons t rest ih =>
    obtain ⟨-, hrest⟩ := List.forall_mem_cons.1 htokens
    unfold qualifiers
    split
    · exact ih hrest
    · exact ih hrest
    · exact ⟨trivial, htokens⟩

theorem arrayLength_yields : arrayLength.Yields bytes fun _ => True := by
  apply (expectOr_yields _ _).bind
  intro t ht
  cases literalValue? t.text with
  | some length => exact Yields.pure trivial
  | none => exact fail_yields ht.span

theorem pointerTo_yields {start : Span} {isMany : Bool} {pointee : Reader TypeExpr}
    (hstart : start.LiesIn bytes) (h : pointee.Yields bytes fun e => e.LiesIn bytes) :
    (pointerTo start isMany pointee).Yields bytes fun e => e.LiesIn bytes := by
  have hqualifiers : (ofTokens (qualifiers false false)).Yields bytes fun _ => True :=
    ofTokens_yields fun _ htokens => qualifiers_keeps htokens
  apply hqualifiers.bind
  intro found _
  apply h.bind
  intro e he
  exact Yields.pure (.pointer he (hstart.merge he.span))

theorem typeWithin_yields (levels : Nat) :
    (typeWithin levels).Yields bytes fun e => e.LiesIn bytes := by
  induction levels with
  | zero =>
    apply here_yields.bind
    intro span hspan
    exact fail_yields hspan
  | succ levels ih =>
    apply here_yields.bind
    intro start hstart
    apply peek_yields.bind
    intro found _
    split
    · apply identifier_yields.bind
      intro name hname
      exact Yields.pure (.named hname.1)
    · apply (eat_yields _).discard.bind
      intro _ _
      exact pointerTo_yields hstart ih
    · apply (eat_yields _).discard.bind
      intro _ _
      apply (eat_yields _).bind
      intro star _
      cases star with
      | some t =>
        apply (expect_yields _).discard.bind
        intro _ _
        exact pointerTo_yields hstart ih
      | none =>
        apply arrayLength_yields.bind
        intro length _
        apply (expect_yields _).discard.bind
        intro _ _
        apply ih.bind
        intro element helement
        exact Yields.pure (.array helement (hstart.merge helement.span))
    · apply (eat_yields _).discard.bind
      intro _ _
      apply (expect_yields _).discard.bind
      intro _ _
      apply (entries_yields ih).bind
      intro params hparams
      apply ih.bind
      intro result hresult
      exact Yields.pure (.function hparams hresult (hstart.merge hresult.span))
    · exact fail_yields hstart

theorem typeExpr_yields : typeExpr.Yields bytes fun e => e.LiesIn bytes :=
  typeWithin_yields maxTypeDepth

/-! ## Items -/

theorem param_yields : param.Yields bytes fun p => p.type.LiesIn bytes := by
  apply identifier_yields.bind
  intro name _
  apply (expect_yields _).discard.bind
  intro _ _
  apply typeExpr_yields.bind
  intro type htype
  exact Yields.pure htype

theorem modifiers_keeps {m : Modifiers} {tokens : List Token}
    (hm : ∀ s ∈ m.start, s.LiesIn bytes) (htokens : ∀ t ∈ tokens, t.LiesIn bytes) :
    Keeps bytes (fun m => ∀ s ∈ m.start, s.LiesIn bytes) (modifiers m tokens) := by
  induction tokens generalizing m with
  | nil => exact ⟨hm, htokens⟩
  | cons t rest ih =>
    obtain ⟨ht, hrest⟩ := List.forall_mem_cons.1 htokens
    have hstart : ∀ s ∈ some (m.start.getD t.span), s.LiesIn bytes := by
      intro s hs
      rw [← Option.some.inj hs]
      exact .getD hm ht.span
    have hduplicate : SyntaxError.LiesIn { cause := .duplicateModifier t.kind, span := t.span }
        bytes := SyntaxError.liesIn_of_span ht.span
    unfold modifiers
    dsimp only
    split
    · split
      · exact hduplicate
      · exact ih hstart hrest
    · split
      · exact hduplicate
      · exact ih hstart hrest
    · split
      · exact hduplicate
      · exact ih hstart hrest
    · exact ⟨hm, htokens⟩

theorem functionBody_yields : functionBody.Yields bytes fun found =>
    (∀ b ∈ found.1, b.LiesIn bytes) ∧ found.2.LiesIn bytes := by
  apply (eat_yields _).bind
  intro semicolon hsemicolon
  cases semicolon with
  | some t =>
    exact Yields.pure ⟨fun _ hb => absurd hb (Option.not_mem_none _), (hsemicolon t rfl).span⟩
  | none =>
    apply peek_yields.bind
    intro found _
    split
    · apply block_yields.bind
      intro body hbody
      refine Yields.pure ⟨fun b hb => ?_, hbody⟩
      rwa [← Option.some.inj hb]
    · apply here_yields.bind
      intro span hspan
      exact fail_yields hspan

variable {m : Modifiers}

/-- The place of the name of a function: that of its first token if it has none. -/
theorem liesIn_name {keyword : Token} {name : Option Token} (hkeyword : keyword.LiesIn bytes)
    (hname : ∀ t, name = some t → t.LiesIn bytes) :
    ((name.map Token.span).getD keyword.span).LiesIn bytes ∧
      ∀ text ∈ name.map Token.text,
        slice bytes ((name.map Token.span).getD keyword.span) = bytesOf text := by
  cases name with
  | none => exact ⟨hkeyword.span, fun _ htext => absurd htext (Option.not_mem_none _)⟩
  | some t =>
    refine ⟨(hname t rfl).span, fun text htext => ?_⟩
    rw [← Option.some.inj htext]
    exact (hname t rfl).text

theorem function_yields (hm : ∀ s ∈ m.start, s.LiesIn bytes) :
    (function m).Yields bytes fun f => f.LiesIn bytes := by
  apply (expect_yields _).bind
  intro keyword hkeyword
  apply (eat_yields _).bind
  intro name hname
  have hstart : (m.start.getD keyword.span).LiesIn bytes := .getD hm hkeyword.span
  obtain ⟨hnameSpan, htext⟩ := liesIn_name hkeyword hname
  have hrest : (do
      discard <| expect .leftParen
      let params ← entries param
      let result ← typeExpr
      let ending ← functionBody
      return {
        name := name.map Token.text
        nameSpan := (name.map Token.span).getD keyword.span
        isPublic := m.isPublic
        isExport := m.isExport
        isExtern := m.isExtern
        params, result
        body := ending.1
        span := (m.start.getD keyword.span).merge ending.2 } : Reader FunctionItem).Yields bytes
          fun f => f.LiesIn bytes := by
    apply (expect_yields _).discard.bind
    intro _ _
    apply (entries_yields param_yields).bind
    intro params hparams
    apply typeExpr_yields.bind
    intro result hresult
    apply functionBody_yields.bind
    intro ending hending
    apply Yields.pure
    exact ⟨hstart.merge hending.2, hnameSpan, htext, hparams, hresult, hending.1⟩
  cases name with
  | none => exact hrest
  | some t =>
    apply (mention_yields _).bind
    intro _ _
    exact hrest

theorem annotation_yields : annotation.Yields bytes fun _ => True := by
  apply (eat_yields _).bind
  intro colon _
  cases colon with
  | none => exact Yields.pure trivial
  | some t =>
    apply typeExpr_yields.bind
    intro _ _
    exact Yields.pure trivial

theorem variableAfter_yields (hm : ∀ s ∈ m.start, s.LiesIn bytes) (kind : TokenKind) :
    (variableAfter m kind).Yields bytes fun v => v.span.LiesIn bytes := by
  apply (expect_yields _).bind
  intro keyword hkeyword
  apply identifier_yields.bind
  intro name _
  apply annotation_yields.bind
  intro type _
  have hstart : (m.start.getD keyword.span).LiesIn bytes := .getD hm hkeyword.span
  have hend : (do
      let semicolon ← expect .semicolon
      return {
        name := name.1
        type
        isConst := keyword.kind = .constKeyword
        isPublic := m.isPublic
        span := (m.start.getD keyword.span).merge semicolon.span } :
          Reader VariableItem).Yields bytes fun v => v.span.LiesIn bytes := by
    apply (expect_yields _).bind
    intro semicolon hsemicolon
    exact Yields.pure (hstart.merge hsemicolon.span)
  apply (eat_yields _).bind
  intro equals _
  cases equals with
  | none => exact hend
  | some t =>
    have hskip : (ofTokens fun tokens => (initializerRest tokens).map (((), ·))).Yields bytes
        fun _ => True := ofTokens_yields fun _ htokens => initializerRest_keeps htokens
    apply hskip.bind
    intro _ _
    exact hend

theorem testBlock_yields : testBlock.Yields bytes fun t => t.span.LiesIn bytes := by
  apply (expect_yields _).bind
  intro keyword hkeyword
  apply (eat_yields _).bind
  intro name _
  apply block_yields.bind
  intro body hbody
  exact Yields.pure (hkeyword.span.merge hbody)

theorem item_yields : item.Yields bytes fun node => node.LiesIn bytes := by
  apply peek_yields.bind
  intro found _
  split
  · apply (expect_yields _).bind
    intro keyword hkeyword
    apply block_yields.bind
    intro body hbody
    exact Yields.pure (hkeyword.span.merge hbody)
  · apply testBlock_yields.bind
    intro t ht
    exact Yields.pure ht
  · have hmodifiers : (ofTokens (modifiers {})).Yields bytes
        fun m => ∀ s ∈ m.start, s.LiesIn bytes :=
      ofTokens_yields fun _ htokens =>
        modifiers_keeps (fun _ hs => absurd hs (Option.not_mem_none _)) htokens
    apply hmodifiers.bind
    intro m hm
    apply peek_yields.bind
    intro kind _
    split
    · apply (function_yields hm).bind
      intro f hf
      exact Yields.pure hf
    · apply (variableAfter_yields hm _).bind
      intro v hv
      exact Yields.pure hv
    · apply (variableAfter_yields hm _).bind
      intro v hv
      exact Yields.pure hv
    · apply here_yields.bind
      intro span hspan
      exact fail_yields hspan

end Reader

/-! ## Texts -/

/-- What stands between two parts of a text lies in the text. -/
theorem Span.liesIn_utf8 (before cs after : List Char) :
    LiesIn ⟨utf8Length before, utf8Length before + utf8Length cs⟩
      (utf8 (before ++ (cs ++ after))) := by
  constructor
  · show utf8Length before ≤ utf8Length before + utf8Length cs
    omega
  · show utf8Length before + utf8Length cs ≤ (utf8 (before ++ (cs ++ after))).length
    rw [← utf8Length_eq, utf8Length_append, utf8Length_append]
    omega

/-- An error covers a piece of a text that starts at some byte. -/
structure SyntaxError.Covers (e : SyntaxError) (start : Nat) (text : List Char) : Prop where
  place : ∃ before written after, text = before ++ (written ++ after) ∧
    e.span = ⟨start + utf8Length before, start + utf8Length before + utf8Length written⟩
  openedAt : e.openedAt = none

/-- An error covers in a longer text what it does in the end of it. -/
theorem SyntaxError.Covers.append {e : SyntaxError} {start : Nat} {w text : List Char}
    (h : e.Covers (start + utf8Length w) text) : e.Covers start (w ++ text) := by
  obtain ⟨⟨before, written, after, rfl, hspan⟩, hopened⟩ := h
  refine ⟨⟨w ++ before, written, after, by simp, ?_⟩, hopened⟩
  rw [hspan, utf8Length_append, Nat.add_assoc start]

/-- What is no token is a piece of the text. -/
theorem covers_of_lexFrom {start : Nat} {text : List Char} {e : SyntaxError}
    (h : lexFrom start text = .error e) : e.Covers start text := by
  have hparts (c : Char) (rest : List Char) (n : Nat) :
      c :: rest = c :: rest.take n ++ rest.drop n := by simp
  fun_induction lexFrom start text with
  | case1 start => cases h
  | case2 start c rest n written span hscan ih =>
    rw [hparts c rest n]
    exact (ih h).append
  | case3 start c rest n written span kind hscan ih =>
    rw [hparts c rest n]
    cases hmore : lexFrom span.stop (rest.drop n) with
    | ok tokens =>
      rw [hmore] at h
      cases h
    | error e' =>
      rw [hmore] at h
      cases h
      exact (ih hmore).append
  | case4 start c rest n written span hscan =>
    cases h
    exact ⟨⟨[], written, rest.drop n, hparts c rest n, rfl⟩, rfl⟩
  | case5 start c rest n written span hscan =>
    cases h
    exact ⟨⟨[], written, rest.drop n, hparts c rest n, rfl⟩, rfl⟩

/-- A token that stands in a text covers its own text there. -/
theorem Token.StandsIn.liesIn {t : Token} {text : String} (h : t.StandsIn 0 text.toList) :
    t.LiesIn (bytesOf text) := by
  obtain ⟨before, after, htext, hspan, -⟩ := h.place
  rw [Nat.zero_add] at hspan
  constructor
  · rw [hspan, bytesOf, htext]
    exact Span.liesIn_utf8 before t.text.toList after
  · rw [hspan, bytesOf, htext]
    exact slice_utf8 before t.text.toList after

/-- The tokens of a text, or what is none, lie in it. -/
theorem lex_liesIn (text : String) :
    match lex text with
    | .ok tokens => ∀ t ∈ tokens, t.LiesIn (bytesOf text)
    | .error e => e.LiesIn (bytesOf text) := by
  unfold lex
  cases hlex : lexFrom 0 text.toList with
  | error e =>
    obtain ⟨⟨before, written, after, htext, hspan⟩, hopened⟩ := covers_of_lexFrom hlex
    rw [Nat.zero_add] at hspan
    refine ⟨?_, fun s hs => ?_⟩
    · rw [hspan, bytesOf, htext]
      exact Span.liesIn_utf8 before written after
    · rw [hopened] at hs
      exact absurd hs (Option.not_mem_none _)
  | ok tokens =>
    intro t ht
    have hmunched := munched_of_lexFrom 0 text.toList
    rw [hlex] at hmunched
    exact (hmunched.standsIn t ht).liesIn

theorem itemsWithin_liesIn {bytes : Bytes} (fuel : Nat) {tokens : List Token}
    (htokens : ∀ t ∈ tokens, t.LiesIn bytes) :
    (∀ e ∈ (itemsWithin bytes.length fuel tokens).error, e.LiesIn bytes) ∧
      ∀ node ∈ (itemsWithin bytes.length fuel tokens).items, node.LiesIn bytes := by
  induction fuel generalizing tokens with
  | zero =>
    exact ⟨fun _ he => absurd he (Option.not_mem_none _), fun _ hn => absurd hn List.not_mem_nil⟩
  | succ fuel ih =>
    cases tokens with
    | nil =>
      exact ⟨fun _ he => absurd he (Option.not_mem_none _), fun _ hn => absurd hn List.not_mem_nil⟩
    | cons t ts =>
      have hitem := Reader.item_yields (t :: ts) htokens
      unfold itemsWithin
      cases hread : item bytes.length (t :: ts) with
      | failed e names =>
        rw [hread] at hitem
        refine ⟨fun e' he => ?_, fun _ hn => absurd hn List.not_mem_nil⟩
        rwa [← Option.some.inj he]
      | done node names rest =>
        rw [hread] at hitem
        obtain ⟨herror, hitems⟩ := ih hitem.2
        exact ⟨herror, List.forall_mem_cons.2 ⟨hitem.1, hitems⟩⟩

/-- All that a parse reports of a text lies in it: its syntax error and its items. -/
theorem parse_liesIn (text : String) :
    (∀ e ∈ (parse text).error, e.LiesIn (bytesOf text)) ∧
      ∀ node ∈ (parse text).items, node.LiesIn (bytesOf text) := by
  have hlex := lex_liesIn text
  unfold parse
  cases hread : lex text with
  | error e =>
    rw [hread] at hlex
    refine ⟨fun e' he => ?_, fun _ hn => absurd hn List.not_mem_nil⟩
    rwa [← Option.some.inj he]
  | ok tokens =>
    rw [hread] at hlex
    unfold itemsOf
    dsimp only
    rw [← length_bytesOf]
    exact itemsWithin_liesIn _ hlex

end IncrementalBuild
