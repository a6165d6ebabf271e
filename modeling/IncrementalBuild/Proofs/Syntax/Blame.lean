import IncrementalBuild.Proofs.Syntax.Lines
import IncrementalBuild.Proofs.Syntax.Slices
import IncrementalBuild.Proofs.Syntax.Spans

/-!
# Where a parse stops

A parse that fails keeps the items before the error. They are all of the text up to the end of
the last one: cut there, the text has these items and no error. The error is one of the tokens
after that end, or the end of the text, and where it is a closer that does not fit, the delimiter
it would have to close stands between the two.
-/

set_option autoImplicit false

namespace IncrementalBuild

/-! ## The delimiter that is open at an error -/

/-- An error over a delimiter that is open is at one of some tokens, and the delimiter is one of
those before it. -/
def SyntaxError.Mismatches (e : SyntaxError) (tokens : List Token) : Prop :=
  ∀ s ∈ e.openedAt, ∃ opener t, [opener, t].Sublist tokens ∧ s = opener.span ∧ e.span = t.span

theorem SyntaxError.Mismatches.mono {e : SyntaxError} {used tokens : List Token}
    (h : e.Mismatches used) (hsub : used.Sublist tokens) : e.Mismatches tokens := by
  intro s hs
  obtain ⟨opener, t, hpair, hopener, ht⟩ := h s hs
  exact ⟨opener, t, hpair.trans hsub, hopener, ht⟩

theorem SyntaxError.mismatches_of_openedAt {e : SyntaxError} (h : e.openedAt = none)
    (tokens : List Token) : e.Mismatches tokens := by
  intro s hs
  rw [h] at hs
  cases hs

namespace Reader

variable {α β : Type} {r : Reader α} {before : List Token}

/-- A reader takes tokens from the front and leaves the others. If it fails over a delimiter that
is open, that is one of the tokens `before` or of its own, and it fails at a later one. -/
def Blames (before : List Token) (r : Reader α) : Prop := ∀ stop tokens,
  match r stop tokens with
  | .done _ _ rest => rest <:+ tokens
  | .failed e _ => e.Mismatches (before ++ tokens)

theorem Blames.pure (a : α) : (pure a : Reader α).Blames before :=
  fun _ tokens => List.suffix_refl tokens

theorem Blames.bind {f : α → Reader β} (hr : r.Blames before) (hf : ∀ a, (f a).Blames before) :
    (r >>= f).Blames before := by
  intro stop tokens
  have hfirst := hr stop tokens
  show match Reader.bind r f stop tokens with
    | .done _ _ rest => rest <:+ tokens
    | .failed e _ => e.Mismatches (before ++ tokens)
  unfold Reader.bind
  cases hread : r stop tokens with
  | failed e names =>
    rw [hread] at hfirst
    exact hfirst
  | done a names middle =>
    rw [hread] at hfirst
    have hsecond := hf a stop middle
    dsimp only
    cases hnext : f a stop middle with
    | failed e more =>
      rw [hnext] at hsecond
      exact hsecond.mono (hfirst.sublist.append_left before)
    | done b more rest =>
      rw [hnext] at hsecond
      exact hsecond.trans hfirst

theorem Blames.discard (h : r.Blames before) : (discard r).Blames before := by
  show (r >>= fun _ => Pure.pure PUnit.unit).Blames before
  exact h.bind fun _ => .pure _

theorem fail_blames (cause : SyntaxCause) (span : Span) :
    (fail cause span : Reader α).Blames before :=
  fun _ _ => SyntaxError.mismatches_of_openedAt rfl _

theorem peek_blames : peek.Blames before := fun _ tokens => List.suffix_refl tokens

theorem here_blames : here.Blames before := fun _ tokens => List.suffix_refl tokens

theorem mention_blames (name : String) : (mention name).Blames before :=
  fun _ tokens => List.suffix_refl tokens

theorem eat_blames (kind : TokenKind) : (eat kind).Blames before := by
  intro stop tokens
  cases tokens with
  | nil => exact List.suffix_refl []
  | cons t rest =>
    unfold eat
    dsimp only
    by_cases hkind : t.kind = kind
    · simp only [if_pos hkind]
      exact List.suffix_cons t rest
    · simp only [if_neg hkind]
      exact List.suffix_refl _

theorem expectOr_blames (kind : TokenKind) (cause : Option TokenKind → SyntaxCause) :
    (expectOr kind cause).Blames before := by
  apply (eat_blames kind).bind
  intro found
  cases found with
  | some t => exact .pure t
  | none => exact peek_blames.bind fun _ => here_blames.bind fun _ => fail_blames _ _

theorem expect_blames (kind : TokenKind) : (expect kind).Blames before := expectOr_blames kind _

theorem expect_eq_done {kind : TokenKind} {stop : Nat} {tokens rest : List Token} {t : Token}
    {names : List String} (h : expect kind stop tokens = .done t names rest) :
    tokens = t :: rest := by
  rw [expect, expectOr, eat_bind_eq_done] at h
  obtain ⟨t', more, rfl, -, hpure⟩ | ⟨-, hfail⟩ := h
  · obtain ⟨rfl, -, rfl⟩ := pure_eq_done.1 hpure
    rfl
  · rw [peek_bind_eq_done, here_bind_eq_done] at hfail
    exact absurd hfail fail_ne_done

/-- What comes after a token may fail over that token. -/
theorem Blames.expect_bind {kind : TokenKind} {f : Token → Reader β}
    (hf : ∀ t, (f t).Blames (before ++ [t])) : (expect kind >>= f).Blames before := by
  intro stop tokens
  have hexpect : (expect kind).Blames before := expect_blames kind
  have hfirst := hexpect stop tokens
  show match Reader.bind (expect kind) f stop tokens with
    | .done _ _ rest => rest <:+ tokens
    | .failed e _ => e.Mismatches (before ++ tokens)
  unfold Reader.bind
  cases hread : expect kind stop tokens with
  | failed e names =>
    rw [hread] at hfirst
    exact hfirst
  | done t names middle =>
    obtain rfl := expect_eq_done hread
    have hsecond := hf t stop middle
    dsimp only
    cases hnext : f t stop middle with
    | failed e more =>
      rw [hnext] at hsecond
      dsimp only at hsecond ⊢
      rwa [List.append_assoc] at hsecond
    | done b more rest =>
      rw [hnext] at hsecond
      exact hsecond.trans (List.suffix_cons t middle)

theorem identifier_blames : identifier.Blames before :=
  (expectOr_blames _ _).bind fun _ => (mention_blames _).bind fun _ => .pure _

theorem entriesWithin_blames {entry : Reader α} (h : entry.Blames before) (fuel : Nat) :
    (entriesWithin entry fuel).Blames before := by
  induction fuel with
  | zero => exact peek_blames.bind fun _ => here_blames.bind fun _ => fail_blames _ _
  | succ fuel ih =>
    apply (eat_blames _).bind
    intro closer
    cases closer with
    | some t => exact .pure _
    | none =>
      apply h.bind
      intro a
      apply (eat_blames _).bind
      intro comma
      cases comma with
      | some t => exact ih.bind fun _ => .pure _
      | none => exact (expect_blames _).discard.bind fun _ => .pure _

theorem entries_blames {entry : Reader α} (h : entry.Blames before) :
    (entries entry).Blames before :=
  fun stop tokens => entriesWithin_blames h (tokens.length + 1) stop tokens

/-! ### Runs between delimiters -/

theorem ofTokens_blames {f : List Token → Except SyntaxError (α × List Token)}
    (hok : ∀ tokens a rest, f tokens = .ok (a, rest) → rest <:+ tokens)
    (herror : ∀ tokens e, f tokens = .error e → e.Mismatches (before ++ tokens)) :
    (ofTokens f).Blames before := by
  intro stop tokens
  unfold ofTokens
  cases hread : f tokens with
  | error e => exact herror tokens e hread
  | ok answer => exact hok tokens answer.1 answer.2 hread

/-- The delimiter that does not fit is the innermost open one: `innermost` itself, one around it
or one of the tokens. -/
theorem mismatches_of_closing {innermost : Token} {outer tokens : List Token} {e : SyntaxError}
    (h : closing innermost outer tokens = .error e) :
    e.Mismatches (outer.reverse ++ innermost :: tokens) := by
  induction tokens generalizing innermost outer with
  | nil =>
    cases h
    exact SyntaxError.mismatches_of_openedAt rfl _
  | cons t rest ih =>
    unfold closing at h
    split at h
    · have hmore := ih h
      rwa [List.reverse_cons, List.append_assoc] at hmore
    · split at h
      · split at h
        · cases outer with
          | nil => cases h
          | cons next outer =>
            refine (ih h).mono ?_
            rw [List.reverse_cons, List.append_assoc]
            exact (((List.sublist_cons_self t rest).cons innermost).cons_cons next).append_left _
        · cases h
          intro s hs
          refine ⟨innermost, t, ?_, (Option.some.inj hs).symm, rfl⟩
          refine List.Sublist.trans ?_ (List.sublist_append_right outer.reverse _)
          exact ((List.nil_sublist rest).cons_cons t).cons_cons innermost
      · exact (ih h).mono (((List.sublist_cons_self t rest).cons_cons innermost).append_left _)

theorem block_blames : block.Blames before := by
  apply Blames.expect_bind
  intro opener
  apply Blames.bind _ fun _ => .pure _
  apply ofTokens_blames
  · intro tokens closer rest h
    obtain ⟨run, rfl, -, -⟩ := closing_eq_ok.1 h
    exact (List.suffix_cons closer rest).trans (List.suffix_append run _)
  · intro tokens e h
    rw [List.append_assoc]
    exact (mismatches_of_closing h).mono (List.sublist_append_right before _)

theorem mismatches_of_initializerRest {tokens : List Token} {e : SyntaxError}
    (h : initializerRest tokens = .error e) : e.Mismatches tokens := by
  fun_induction initializerRest tokens with
  | case1 => cases h
  | case2 => cases h
  | case3 =>
    cases h
    exact SyntaxError.mismatches_of_openedAt rfl _
  | case4 t rest hkind hcloser hopener closer more hclosing ih =>
    obtain ⟨run, rfl, -, -⟩ := closing_eq_ok.1 hclosing
    have hsub : more.Sublist (t :: (run ++ closer :: more)) :=
      ((List.sublist_cons_self closer more).trans (List.sublist_append_right run _)).cons t
    exact (ih h).mono hsub
  | case5 t rest hkind hcloser hopener e' hclosing =>
    cases h
    exact mismatches_of_closing hclosing
  | case6 t rest hkind hcloser hopener ih => exact (ih h).mono (List.sublist_cons_self t rest)

theorem initializerRest_blames :
    (ofTokens fun tokens => (initializerRest tokens).map (((), ·))).Blames before := by
  apply ofTokens_blames
  · intro tokens a rest h
    cases hread : initializerRest tokens with
    | error e => rw [hread] at h; cases h
    | ok rest' =>
      rw [hread] at h
      cases h
      obtain ⟨run, rfl, -, -⟩ := initializerRest_eq_ok.1 hread
      exact List.suffix_append run rest
  · intro tokens e h
    cases hread : initializerRest tokens with
    | error e' =>
      rw [hread] at h
      cases h
      exact (mismatches_of_initializerRest hread).mono (List.sublist_append_right before _)
    | ok rest' => rw [hread] at h; cases h

/-! ### Types -/

theorem qualifiers_ne_error {isConst isVolatile : Bool} {tokens : List Token} {e : SyntaxError} :
    qualifiers isConst isVolatile tokens ≠ .error e := by
  fun_induction qualifiers isConst isVolatile tokens with
  | case1 => simp
  | case2 _ _ _ _ _ ih => exact ih
  | case3 _ _ _ _ _ ih => exact ih
  | case4 => simp

theorem pointerTo_blames {start : Span} {isMany : Bool} {pointee : Reader TypeExpr}
    (h : pointee.Blames before) : (pointerTo start isMany pointee).Blames before := by
  have hqualifiers : (ofTokens (qualifiers false false)).Blames before := by
    apply ofTokens_blames
    · intro tokens found rest h
      obtain ⟨used, rfl, -, -, -⟩ := qualifiers_eq_ok.1 h
      exact List.suffix_append used rest
    · exact fun tokens e h => absurd h qualifiers_ne_error
  exact hqualifiers.bind fun _ => h.bind fun _ => .pure _

theorem arrayLength_blames : arrayLength.Blames before := by
  apply (expectOr_blames _ _).bind
  intro t
  cases literalValue? t.text with
  | some length => exact .pure _
  | none => exact fail_blames _ _

theorem typeWithin_blames (levels : Nat) : (typeWithin levels).Blames before := by
  induction levels with
  | zero => exact here_blames.bind fun _ => fail_blames _ _
  | succ levels ih =>
    apply here_blames.bind
    intro start
    apply peek_blames.bind
    intro found
    split
    · exact identifier_blames.bind fun _ => .pure _
    · exact (eat_blames _).discard.bind fun _ => pointerTo_blames ih
    · apply (eat_blames _).discard.bind
      intro _
      apply (eat_blames _).bind
      intro star
      cases star with
      | some t => exact (expect_blames _).discard.bind fun _ => pointerTo_blames ih
      | none =>
        apply arrayLength_blames.bind
        intro length
        exact (expect_blames _).discard.bind fun _ => ih.bind fun _ => .pure _
    · apply (eat_blames _).discard.bind
      intro _
      apply (expect_blames _).discard.bind
      intro _
      exact (entries_blames ih).bind fun _ => ih.bind fun _ => .pure _
    · exact fail_blames _ _

theorem typeExpr_blames : typeExpr.Blames before := typeWithin_blames maxTypeDepth

/-! ### Items -/

theorem param_blames : param.Blames before := by
  apply identifier_blames.bind
  intro name
  exact (expect_blames _).discard.bind fun _ => typeExpr_blames.bind fun _ => .pure _

theorem openedAt_of_modifiers {m : Modifiers} {tokens : List Token} {e : SyntaxError}
    (h : modifiers m tokens = .error e) : e.openedAt = none := by
  induction tokens generalizing m with
  | nil => cases h
  | cons t rest ih =>
    by_cases hkind : t.kind ∈ Modifiers.kinds
    · rw [Modifiers.read_modifier hkind] at h
      split at h
      · cases h
        rfl
      · exact ih h
    · rw [Modifiers.read_other hkind] at h
      cases h

theorem modifiers_blames (m : Modifiers) : (ofTokens (modifiers m)).Blames before := by
  apply ofTokens_blames
  · intro tokens found rest h
    obtain ⟨used, rfl, -, -, -⟩ := Modifiers.read_eq_ok.1 h
    exact List.suffix_append used rest
  · exact fun tokens e h => SyntaxError.mismatches_of_openedAt (openedAt_of_modifiers h) _

theorem functionBody_blames : functionBody.Blames before := by
  apply (eat_blames _).bind
  intro semicolon
  cases semicolon with
  | some t => exact .pure _
  | none =>
    apply peek_blames.bind
    intro found
    split
    · exact block_blames.bind fun _ => .pure _
    · exact here_blames.bind fun _ => fail_blames _ _

theorem function_blames (m : Modifiers) : (function m).Blames before := by
  apply (expect_blames _).bind
  intro keyword
  apply (eat_blames _).bind
  intro name
  have hrest : (do
      discard <| expect .leftParen
      let params ← entries param
      let result ← typeExpr
      let ending ← functionBody
      return {
        name := name.map Token.text
        nameSpan := (name.map Token.span).getD keyword.span
        isPublic := m.isPublic
        isExport := m.isExport
        isExtern := m.isExtern
        params, result
        body := ending.1
        span := (m.start.getD keyword.span).merge ending.2 } : Reader FunctionItem).Blames
          before := by
    apply (expect_blames _).discard.bind
    intro _
    apply (entries_blames param_blames).bind
    intro params
    apply typeExpr_blames.bind
    intro result
    exact functionBody_blames.bind fun _ => .pure _
  cases name with
  | none => exact hrest
  | some t => exact (mention_blames _).bind fun _ => hrest

theorem annotation_blames : annotation.Blames before := by
  apply (eat_blames _).bind
  intro colon
  cases colon with
  | none => exact .pure _
  | some t => exact typeExpr_blames.bind fun _ => .pure _

theorem variableAfter_blames (m : Modifiers) (kind : TokenKind) :
    (variableAfter m kind).Blames before := by
  apply (expect_blames _).bind
  intro keyword
  apply identifier_blames.bind
  intro name
  apply annotation_blames.bind
  intro type
  apply (eat_blames _).bind
  intro equals
  cases equals with
  | none => exact (expect_blames _).bind fun _ => .pure _
  | some t =>
    exact initializerRest_blames.bind fun _ => (expect_blames _).bind fun _ => .pure _

theorem testBlock_blames : testBlock.Blames before := by
  apply (expect_blames _).bind
  intro keyword
  apply (eat_blames _).bind
  intro name
  exact block_blames.bind fun _ => .pure _

theorem item_blames : item.Blames before := by
  apply peek_blames.bind
  intro found
  split
  · exact (expect_blames _).bind fun _ => block_blames.bind fun _ => .pure _
  · exact testBlock_blames.bind fun _ => .pure _
  · apply (modifiers_blames {}).bind
    intro m
    apply peek_blames.bind
    intro kind
    split
    · exact (function_blames m).bind fun _ => .pure _
    · exact (variableAfter_blames m _).bind fun _ => .pure _
    · exact (variableAfter_blames m _).bind fun _ => .pure _
    · exact here_blames.bind fun _ => fail_blames _ _

end Reader

/-- The error of a parse is over a delimiter among the tokens, if it is over one. -/
theorem mismatches_of_itemsWithin {stop fuel : Nat} {tokens : List Token} {e : SyntaxError}
    (h : (itemsWithin stop fuel tokens).error = some e) : e.Mismatches tokens := by
  induction fuel generalizing tokens with
  | zero => cases h
  | succ fuel ih =>
    cases tokens with
    | nil => cases h
    | cons t ts =>
      have hblames : item.Blames [] := Reader.item_blames
      have hitem := hblames stop (t :: ts)
      rw [itemsWithin] at h
      cases hread : item stop (t :: ts) with
      | failed e' names =>
        rw [hread] at h hitem
        cases h
        exact hitem
      | done node names rest =>
        rw [hread] at h hitem
        exact (ih h).mono hitem.sublist

/-- In a text the delimiter that is open at an error ends before the error starts. -/
theorem SyntaxError.Mismatches.stop_le_start {e : SyntaxError} {tokens : List Token}
    (h : e.Mismatches tokens) {o : Nat} {cs : List Char} (htokens : Lexes o cs tokens) :
    ∀ s ∈ e.openedAt, s.stop ≤ e.span.start := by
  intro s hs
  obtain ⟨opener, t, hpair, rfl, ht⟩ := h s hs
  have horder := htokens.inOrder.2.sublist hpair
  rw [ht]
  exact (List.pairwise_cons.1 horder).1 t (List.mem_singleton_self t)

/-! ## The items before an error -/

open Reader Grammar

/-- Where the last item of a parse ends, or the start of the text if there is none. -/
def Outline.stop (o : Outline) : Nat := (o.items.getLast?.map (·.span.stop)).getD 0

/-- A parse takes whole items as long as it can. -/
theorem exists_derivation_before (stop : Nat) (tokens : List Token) :
    ∃ used rest pieces, tokens = used ++ rest ∧ Derivation used pieces ∧
      (itemsOf stop rest).items = [] := by
  induction hn : tokens.length using Nat.strongRecOn generalizing tokens with
  | _ n ih =>
    subst hn
    cases tokens with
    | nil => exact ⟨[], [], [], rfl, .nil, rfl⟩
    | cons t ts =>
      cases hread : item stop (t :: ts) with
      | failed e names =>
        refine ⟨[], t :: ts, [], rfl, .nil, ?_⟩
        rw [itemsOf, List.length_cons, itemsWithin, hread]
      | done node names rest =>
        obtain ⟨used, hused, hnode, -⟩ := item_reads.1 hread
        have hlength := congrArg List.length hused
        rw [List.length_append] at hlength
        have hpos := List.length_pos_iff.2 hnode.ne_nil
        obtain ⟨more, rest, pieces, rfl, hpieces, hrest⟩ := ih rest.length (by omega) rest rfl
        refine ⟨used ++ more, rest, (used, node) :: pieces, ?_, .cons hnode hpieces, hrest⟩
        rw [hused, List.append_assoc]

/-- The last item of a derivation is spelled by its last tokens. -/
theorem Grammar.Derivation.exists_last {used : List Token} {pieces : List (List Token × Item)}
    (h : Derivation used pieces) : (used = [] ∧ pieces = []) ∨
      ∃ before last node, used = before ++ last ∧ ItemOf last node ∧
        pieces.getLast? = some (last, node) := by
  induction h with
  | nil => exact .inl ⟨rfl, rfl⟩
  | @cons used more node pieces hnode _ ih =>
    refine .inr ?_
    obtain ⟨rfl, rfl⟩ | ⟨before, last, node', rfl, hlast, hpieces⟩ := ih
    · exact ⟨[], used, node, List.append_nil used, hnode, rfl⟩
    · refine ⟨used ++ before, last, node', (List.append_assoc ..).symm, hlast, ?_⟩
      rw [List.getLast?_cons, hpieces, Option.getD_some]

/-- A text can be cut where whole items end. -/
theorem Lexes.cut_derivation {cs : List Char} {used rest : List Token}
    {pieces : List (List Token × Item)} (h : Lexes 0 cs (used ++ rest))
    (hpieces : Derivation used pieces) :
    ∃ u v, cs = u ++ v ∧ Lexes 0 u used ∧ Lexes (utf8Length u) v rest ∧
      ((pieces.map (·.2)).getLast?.map (·.span.stop)).getD 0 = utf8Length u := by
  obtain ⟨rfl, rfl⟩ | ⟨before, last, node, rfl, hnode, hlast⟩ := hpieces.exists_last
  · exact ⟨[], cs, rfl, .nil 0, h, rfl⟩
  · obtain ⟨first, t, -, ht, hkind, hspan⟩ :=
      hnode.span_eq h.grammar_inOrder.of_append.1.of_append.2
    obtain ⟨init, rfl⟩ := List.getLast?_eq_some_iff.1 ht
    have hcut : before ++ (init ++ [t]) ++ rest = (before ++ init) ++ t :: rest := by simp
    rw [hcut] at h
    obtain ⟨u, v, rfl, hstop, hu, hv⟩ := h.cut_after hkind
    rw [Nat.zero_add] at hstop hv
    refine ⟨u, v, rfl, ?_, hv, ?_⟩
    · rwa [← List.append_assoc]
    · rw [List.getLast?_map, hlast]
      simp [hspan, hstop]

/-- Tokens that stand later in a text are read as they are at its start, and what is wrong with
them is moved along. -/
theorem Lexes.itemsOf_eq_moved {k : Nat} {v : List Char} {rest : List Token}
    (h : Lexes k v rest) (stop : Nat) :
    ∃ o : Outline, itemsOf (stop + k) rest = o.moved (· + k) := by
  have hmono : Monotone (· + k) := fun _ _ hle => Nat.add_le_add_right hle k
  have hstart : Lexes 0 v (rest.map (Token.moved (· - k))) := h.moved fun n => by omega
  have hback : Lexes k v ((rest.map (Token.moved (· - k))).map (Token.moved (· + k))) :=
    hstart.moved fun n => by omega
  rw [← hback.unique h]
  refine ⟨itemsOf stop (rest.map (Token.moved (· - k))), ?_⟩
  rw [itemsOf, itemsWithin_moved hmono, List.length_map, itemsOf]

/-- A text with tokens is one without an error up to the end of its last item, and all that is
said of an error is after that end. -/
theorem exists_parse_before {text : String} {tokens : List Token}
    (h : Lexes 0 text.toList tokens) :
    (∃ before after, text = before ++ after ∧ before.utf8ByteSize = (parse text).stop ∧
      (parse before).items = (parse text).items ∧ (parse before).error = none) ∧
    ∀ e ∈ (parse text).error, (parse text).stop ≤ e.span.start ∧
      ∀ s ∈ e.openedAt, (parse text).stop ≤ s.start := by
  obtain ⟨used, rest, pieces, rfl, hpieces, hrest⟩ :=
    exists_derivation_before text.utf8ByteSize tokens
  obtain ⟨u, v, htext, hu, hv, hstop⟩ := h.cut_derivation hpieces
  have hparse := parse_of_lexes h
  rw [itemsOf_append hpieces, hrest, List.append_nil] at hparse
  have hend : (parse text).stop = utf8Length u := by rw [Outline.stop, hparse, hstop]
  rw [hend]
  constructor
  · have hbefore : parse (String.ofList u) = _ :=
      parse_of_lexes (by rwa [String.toList_ofList])
    rw [itemsOf, itemsWithin_of_derivation hpieces le_rfl] at hbefore
    refine ⟨String.ofList u, String.ofList v, ?_, ?_, ?_, ?_⟩
    · apply String.toList_inj.1
      simpa using htext
    · rw [← utf8Length_toList, String.toList_ofList]
    · rw [hbefore, hparse]
    · rw [hbefore]
  · have hsize : text.utf8ByteSize = utf8Length v + utf8Length u := by
      rw [← utf8Length_toList, htext, utf8Length_append, Nat.add_comm]
    obtain ⟨o, ho⟩ := hv.itemsOf_eq_moved (utf8Length v)
    intro e he
    rw [hparse, hsize, ho] at he
    obtain ⟨e, -, rfl⟩ := Option.map_eq_some_iff.1 he
    refine ⟨Nat.le_add_left _ _, fun s hs => ?_⟩
    obtain ⟨s, -, rfl⟩ := Option.map_eq_some_iff.1 hs
    exact Nat.le_add_left _ _

/-- A text that is not lexed has no items. One that is lexed and does not spell items has one
error, which lies in the text after the end of its last item; if it is over a delimiter that is
open, that stands between the two; and up to the end of the last item the text is one with the
same items and no error. -/
theorem parse_stops_at_error (text : String) :
    (∀ e, lex text = .error e → parse text = { items := [], error := some e, names := [] }) ∧
    ∀ tokens, lex text = .ok tokens → (¬∃ pieces, Derivation tokens pieces) →
      ∃ e, (parse text).error = some e ∧ e.LiesIn (bytesOf text) ∧
        (parse text).stop ≤ e.span.start ∧
        (∀ s ∈ e.openedAt, (parse text).stop ≤ s.start ∧ s.stop ≤ e.span.start) ∧
        ∃ before after, text = before ++ after ∧ before.utf8ByteSize = (parse text).stop ∧
          (parse before).items = (parse text).items ∧ (parse before).error = none := by
  refine ⟨fun e he => by rw [parse, he], fun tokens hlex hno => ?_⟩
  have htokens : Lexes 0 text.toList tokens := lexFrom_eq_ok.1 hlex
  obtain ⟨e, he⟩ : ∃ e, (parse text).error = some e := by
    rw [← Option.ne_none_iff_exists']
    intro hnone
    rw [parse_of_lexes htokens] at hnone
    exact hno (exists_derivation_of_error_eq_none le_rfl hnone)
  obtain ⟨hbefore, hafter⟩ := exists_parse_before htokens
  obtain ⟨hstart, hopened⟩ := hafter e he
  have hmismatches : e.Mismatches tokens := by
    rw [parse_of_lexes htokens] at he
    exact mismatches_of_itemsWithin he
  refine ⟨e, he, (parse_liesIn text).1 e he, hstart, fun s hs => ⟨hopened s hs, ?_⟩, hbefore⟩
  exact hmismatches.stop_le_start htokens s hs

-- the closer at byte 27 does not fit the parenthesis at byte 25, and the variable ends at byte 10
example : ((parse "var x: u8; fn f() void { ( ] }").stop,
    (parse "var x: u8; fn f() void { ( ] }").error.map fun e => (e.span, e.openedAt)) =
      (10, some (⟨27, 28⟩, some ⟨25, 26⟩)) := by
  decide +kernel

end IncrementalBuild
