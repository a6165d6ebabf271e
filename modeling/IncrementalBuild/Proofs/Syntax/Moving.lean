import IncrementalBuild.Proofs.Syntax.Acceptance

/-!
# Reading moved tokens

A reader looks at the kinds and the texts of tokens and only passes their places on. So from
tokens that are moved in order it reads what it reads from the tokens, moved likewise, and
fails where it fails, with the error moved.
-/

set_option autoImplicit false

namespace IncrementalBuild

/-- The error with its places moved. -/
def SyntaxError.moved (f : Nat → Nat) (e : SyntaxError) : SyntaxError :=
  { e with span := e.span.moved f, openedAt := e.openedAt.map (Span.moved f) }

/-- The modifiers with their place moved. -/
def Modifiers.moved (f : Nat → Nat) (m : Modifiers) : Modifiers :=
  { m with start := m.start.map (Span.moved f) }

/-- The outline with every place in it moved. -/
def Outline.moved (f : Nat → Nat) (o : Outline) : Outline :=
  { o with items := o.items.map (Item.moved f), error := o.error.map (SyntaxError.moved f) }

/-- The reading with every place in it moved, those in its value by `g`. -/
def Reading.moved {α β : Type} (f : Nat → Nat) (g : α → β) : Reading α → Reading β
  | .done a names rest => .done (g a) names (rest.map (Token.moved f))
  | .failed e names => .failed (e.moved f) names

/-- What an attempt on tokens yields, with every place in it moved. -/
def movedAttempt {α β : Type} (f : Nat → Nat) (g : α → β) :
    Except SyntaxError (α × List Token) → Except SyntaxError (β × List Token)
  | .ok (a, rest) => .ok (g a, rest.map (Token.moved f))
  | .error e => .error (e.moved f)

/-- From moved tokens, `r'` reads what `r` reads from the tokens, moved. -/
def Reader.Follows {α β : Type} (f : Nat → Nat) (g : α → β) (r : Reader α) (r' : Reader β) : Prop :=
  ∀ stop tokens, r' (f stop) (tokens.map (Token.moved f)) = (r stop tokens).moved f g

@[simp]
theorem Token.kind_moved (f : Nat → Nat) (t : Token) : (t.moved f).kind = t.kind := rfl

@[simp]
theorem Token.text_moved (f : Nat → Nat) (t : Token) : (t.moved f).text = t.text := rfl

namespace Reader

variable {f : Nat → Nat} {α α' β β' : Type} {g : α → α'} {h : β → β'} {r : Reader α}
  {r' : Reader α'}

theorem Follows.pure {a : α} {a' : α'} (ha : g a = a') :
    Follows f g (pure a : Reader α) (pure a' : Reader α') := by
  subst ha
  exact fun _ _ => rfl

theorem Follows.bind {k : α → Reader β} {k' : α' → Reader β'} (hr : Follows f g r r')
    (hk : ∀ a, Follows f h (k a) (k' (g a))) : Follows f h (r >>= k) (r' >>= k') := by
  intro stop tokens
  show Reader.bind r' k' _ _ = (Reader.bind r k stop tokens).moved f h
  unfold Reader.bind
  rw [hr stop tokens]
  cases r stop tokens with
  | failed e names => rfl
  | done a names middle =>
    dsimp only [Reading.moved]
    rw [hk a stop middle]
    cases k a stop middle <;> rfl

theorem Follows.discard (hr : Follows f g r r') :
    Follows f id (discard r) (discard r') := by
  show Follows f id (r >>= fun _ => Pure.pure PUnit.unit) (r' >>= fun _ => Pure.pure PUnit.unit)
  exact hr.bind fun _ => .pure rfl

theorem fail_follows {cause : SyntaxCause} {span : Span} :
    Follows f g (fail cause span) (fail cause (span.moved f)) := fun _ _ => rfl

theorem ofTokens_follows {k : List Token → Except SyntaxError (α × List Token)}
    {k' : List Token → Except SyntaxError (α' × List Token)}
    (hk : ∀ tokens, k' (tokens.map (Token.moved f)) = movedAttempt f g (k tokens)) :
    Follows f g (ofTokens k) (ofTokens k') := by
  intro stop tokens
  unfold ofTokens
  rw [hk tokens]
  cases k tokens <;> rfl

theorem peek_follows : Follows f id peek peek := by
  intro stop tokens
  cases tokens <;> rfl

theorem here_follows : Follows f (Span.moved f) here here := by
  intro stop tokens
  cases tokens <;> rfl

theorem mention_follows (name : String) : Follows f id (mention name) (mention name) :=
  fun _ _ => rfl

theorem eat_follows (kind : TokenKind) :
    Follows f (Option.map (Token.moved f)) (eat kind) (eat kind) := by
  intro stop tokens
  cases tokens with
  | nil => rfl
  | cons t rest =>
    by_cases hkind : t.kind = kind
    · have hmoved : (t.moved f).kind = kind := hkind
      simp only [eat, List.map_cons, if_pos hkind, if_pos hmoved]
      rfl
    · have hmoved : ¬(t.moved f).kind = kind := hkind
      simp only [eat, List.map_cons, if_neg hkind, if_neg hmoved]
      rfl

theorem expectOr_follows (kind : TokenKind) (cause : Option TokenKind → SyntaxCause) :
    Follows f (Token.moved f) (expectOr kind cause) (expectOr kind cause) := by
  apply (eat_follows kind).bind
  intro found
  cases found with
  | some t => exact .pure rfl
  | none =>
    apply peek_follows.bind
    intro kind'
    apply here_follows.bind
    intro span
    exact fail_follows

theorem expect_follows (kind : TokenKind) :
    Follows f (Token.moved f) (expect kind) (expect kind) := expectOr_follows kind _

theorem identifier_follows :
    Follows f (Prod.map id (Span.moved f)) identifier identifier := by
  apply (expectOr_follows _ _).bind
  intro t
  apply (mention_follows _).bind
  intro _
  exact .pure rfl

theorem entriesWithin_follows {entry : Reader α} {entry' : Reader α'}
    (hentry : Follows f g entry entry') (fuel : Nat) :
    Follows f (List.map g) (entriesWithin entry fuel) (entriesWithin entry' fuel) := by
  induction fuel with
  | zero =>
    apply peek_follows.bind
    intro kind
    apply here_follows.bind
    intro span
    exact fail_follows
  | succ fuel ih =>
    apply (eat_follows _).bind
    intro closer
    cases closer with
    | some t => exact .pure rfl
    | none =>
      apply hentry.bind
      intro a
      apply (eat_follows _).bind
      intro comma
      cases comma with
      | some t =>
        apply ih.bind
        intro more
        exact .pure rfl
      | none =>
        apply (expect_follows _).discard.bind
        intro _
        exact .pure rfl

theorem entries_follows {entry : Reader α} {entry' : Reader α'}
    (hentry : Follows f g entry entry') :
    Follows f (List.map g) (entries entry) (entries entry') := by
  intro stop tokens
  unfold entries
  rw [List.length_map]
  exact entriesWithin_follows hentry _ stop tokens

/-! ## Runs between delimiters -/

theorem closing_moved (innermost : Token) (outer tokens : List Token) :
    closing (innermost.moved f) (outer.map (Token.moved f)) (tokens.map (Token.moved f)) =
      movedAttempt f (Token.moved f) (closing innermost outer tokens) := by
  induction tokens generalizing innermost outer with
  | nil => rfl
  | cons t rest ih =>
    rw [List.map_cons]
    by_cases hopener : t.kind.isOpener = true
    · rw [closing_opener hopener, closing_opener (t := t.moved f) hopener]
      exact ih t (innermost :: outer)
    by_cases hpair : innermost.kind.closer? = some t.kind
    · have hmoved : (innermost.moved f).kind.closer? = some (t.moved f).kind := hpair
      rw [closing_closer hpair, closing_closer hmoved]
      cases outer with
      | nil => rfl
      | cons next outer => exact ih next outer
    rw [Bool.not_eq_true] at hopener
    cases hcloser : t.kind.isCloser with
    | false =>
      rw [closing_plain hopener hcloser, closing_plain (t := t.moved f) hopener hcloser]
      exact ih innermost outer
    | true =>
      unfold closing
      simp only [hopener, hcloser, hpair, Token.kind_moved, Bool.false_eq_true, if_false, if_true]
      rfl

theorem initializerRest_moved (tokens : List Token) :
    (initializerRest (tokens.map (Token.moved f))).map (((), ·)) =
      movedAttempt f id ((initializerRest tokens).map (((), ·))) := by
  fun_induction initializerRest tokens with
  | case1 =>
    rw [List.map_nil, initializerRest]
    rfl
  | case2 t rest h =>
    rw [List.map_cons, initializerRest, Token.kind_moved, if_pos h]
    rfl
  | case3 t rest h hcloser =>
    rw [List.map_cons, initializerRest, Token.kind_moved, if_neg h, if_pos hcloser]
    rfl
  | case4 t rest h hcloser hopener closer more hclosing ih =>
    have hmoved := closing_moved (f := f) t [] rest
    rw [hclosing] at hmoved
    rw [List.map_cons, initializerRest, Token.kind_moved, if_neg h, if_neg hcloser, if_pos hopener]
    split
    · rename_i c rest' hc
      cases hc.symm.trans hmoved
      exact ih
    · rename_i e he
      cases he.symm.trans hmoved
  | case5 t rest h hcloser hopener e hclosing =>
    have hmoved := closing_moved (f := f) t [] rest
    rw [hclosing] at hmoved
    rw [List.map_cons, initializerRest, Token.kind_moved, if_neg h, if_neg hcloser, if_pos hopener]
    split
    · rename_i c rest' hc
      cases hc.symm.trans hmoved
    · rename_i e he
      cases he.symm.trans hmoved
      rfl
  | case6 t rest h hcloser hopener ih =>
    rw [List.map_cons, initializerRest, Token.kind_moved, if_neg h, if_neg hcloser, if_neg hopener]
    exact ih

theorem block_follows (hf : Monotone f) : Follows f (Span.moved f) block block := by
  apply (expect_follows _).bind
  intro opener
  have hcloser : Follows f (Token.moved f) (ofTokens (closing opener []))
      (ofTokens (closing (opener.moved f) [])) :=
    ofTokens_follows (closing_moved opener [])
  apply hcloser.bind
  intro closer
  exact .pure (Span.moved_merge hf ..)

/-! ## Types -/

theorem qualifiers_moved (isConst isVolatile : Bool) (tokens : List Token) :
    qualifiers isConst isVolatile (tokens.map (Token.moved f)) =
      movedAttempt f id (qualifiers isConst isVolatile tokens) := by
  induction tokens generalizing isConst isVolatile with
  | nil => rfl
  | cons t rest ih =>
    rw [List.map_cons, qualifiers, qualifiers, Token.kind_moved]
    split
    · exact ih ..
    · exact ih ..
    · rfl

theorem arrayLength_follows : Follows f id arrayLength arrayLength := by
  apply (expectOr_follows _ _).bind
  intro t
  rw [Token.text_moved]
  cases literalValue? t.text with
  | some length => exact .pure rfl
  | none => exact fail_follows

theorem pointerTo_follows (hf : Monotone f) {start : Span} {isMany : Bool}
    {pointee : Reader TypeExpr} (h : Follows f (TypeExpr.moved f) pointee pointee) :
    Follows f (TypeExpr.moved f) (pointerTo start isMany pointee)
      (pointerTo (start.moved f) isMany pointee) := by
  have hqualifiers : Follows f id (ofTokens (qualifiers false false))
      (ofTokens (qualifiers false false)) := ofTokens_follows (qualifiers_moved false false)
  apply hqualifiers.bind
  intro found
  apply h.bind
  intro e
  apply Follows.pure
  rw [TypeExpr.moved, Span.moved_merge hf, TypeExpr.span_moved]

theorem typeWithin_follows (hf : Monotone f) (levels : Nat) :
    Follows f (TypeExpr.moved f) (typeWithin levels) (typeWithin levels) := by
  induction levels with
  | zero =>
    apply here_follows.bind
    intro span
    exact fail_follows
  | succ levels ih =>
    apply here_follows.bind
    intro start
    apply peek_follows.bind
    intro found
    cases found with
    | none => exact fail_follows
    | some kind =>
      cases kind with
      | identifier =>
        apply identifier_follows.bind
        intro name
        exact .pure (by rw [TypeExpr.moved]; rfl)
      | star =>
        apply (eat_follows _).discard.bind
        intro _
        exact pointerTo_follows hf ih
      | leftBracket =>
        apply (eat_follows _).discard.bind
        intro _
        apply (eat_follows _).bind
        intro star
        cases star with
        | some t =>
          apply (expect_follows _).discard.bind
          intro _
          exact pointerTo_follows hf ih
        | none =>
          apply arrayLength_follows.bind
          intro length
          apply (expect_follows _).discard.bind
          intro _
          apply ih.bind
          intro element
          apply Follows.pure
          rw [TypeExpr.moved, Span.moved_merge hf, TypeExpr.span_moved]
          rfl
      | fnKeyword =>
        apply (eat_follows _).discard.bind
        intro _
        apply (expect_follows _).discard.bind
        intro _
        apply (entries_follows ih).bind
        intro params
        apply ih.bind
        intro result
        apply Follows.pure
        rw [TypeExpr.moved, Span.moved_merge hf, TypeExpr.span_moved]
      | _ => exact fail_follows

theorem typeExpr_follows (hf : Monotone f) : Follows f (TypeExpr.moved f) typeExpr typeExpr :=
  typeWithin_follows hf maxTypeDepth

/-! ## Items -/

theorem param_follows (hf : Monotone f) : Follows f (Param.moved f) param param := by
  apply identifier_follows.bind
  intro name
  apply (expect_follows _).discard.bind
  intro _
  apply (typeExpr_follows hf).bind
  intro type
  apply Follows.pure
  rw [Param.moved, Span.moved_merge hf, TypeExpr.span_moved]
  rfl

theorem modifiers_moved (m : Modifiers) (tokens : List Token) :
    modifiers (m.moved f) (tokens.map (Token.moved f)) =
      movedAttempt f (Modifiers.moved f) (modifiers m tokens) := by
  induction tokens generalizing m with
  | nil => rfl
  | cons t rest ih =>
    have hstart : some ((m.moved f).start.getD (t.moved f).span) =
        (some (m.start.getD t.span)).map (Span.moved f) := by
      cases hm : m.start <;> simp [Modifiers.moved, Token.moved, hm]
    have hnext (isDuplicate : Bool) (next : Modifiers) :
        (if isDuplicate then
            .error { cause := .duplicateModifier t.kind, span := (t.moved f).span }
          else modifiers (next.moved f) (rest.map (Token.moved f))) =
        movedAttempt f (Modifiers.moved f) (if isDuplicate then
            .error { cause := .duplicateModifier t.kind, span := t.span }
          else modifiers next rest) := by
      cases isDuplicate
      · exact ih next
      · rfl
    rw [List.map_cons, modifiers, modifiers, hstart]
    simp only [Token.kind_moved]
    let start := some (m.start.getD t.span)
    split
    · exact hnext m.isPublic { m with start, isPublic := true }
    · exact hnext m.isExport { m with start, isExport := true }
    · exact hnext m.isExtern { m with start, isExtern := true }
    · rfl

theorem functionBody_follows (hf : Monotone f) :
    Follows f (Prod.map (Option.map (Span.moved f)) (Span.moved f)) functionBody functionBody := by
  apply (eat_follows _).bind
  intro semicolon
  cases semicolon with
  | some t => exact .pure rfl
  | none =>
    apply peek_follows.bind
    intro found
    have hfail : Follows f (Prod.map (Option.map (Span.moved f)) (Span.moved f))
        (do fail (.expectedBody found) (← here) : Reader (Option Span × Span))
        (do fail (.expectedBody found) (← here)) := by
      apply here_follows.bind
      intro span
      exact fail_follows
    cases found with
    | none => exact hfail
    | some kind =>
      cases kind with
      | leftBrace =>
        apply (block_follows hf).bind
        intro body
        exact .pure rfl
      | _ => exact hfail

theorem getD_moved {first : Option Span} {t : Token} :
    (first.map (Span.moved f)).getD (t.moved f).span = (first.getD t.span).moved f := by
  cases first <;> rfl

theorem function_follows (hf : Monotone f) (m : Modifiers) :
    Follows f (FunctionItem.moved f) (function m) (function (m.moved f)) := by
  apply (expect_follows _).bind
  intro keyword
  apply (eat_follows _).bind
  intro name
  have hrest : Follows f (FunctionItem.moved f) (do
      discard <| expect .leftParen
      let params ← entries param
      let result ← typeExpr
      let ending ← functionBody
      return {
        name := name.map Token.text
        nameSpan := (name.map Token.span).getD keyword.span
        isPublic := m.isPublic
        isExport := m.isExport
        isExtern := m.isExtern
        params, result
        body := ending.1
        span := (m.start.getD keyword.span).merge ending.2 } : Reader FunctionItem) (do
      discard <| expect .leftParen
      let params ← entries param
      let result ← typeExpr
      let ending ← functionBody
      return {
        name := (name.map (Token.moved f)).map Token.text
        nameSpan := ((name.map (Token.moved f)).map Token.span).getD (keyword.moved f).span
        isPublic := m.isPublic
        isExport := m.isExport
        isExtern := m.isExtern
        params, result
        body := ending.1
        span := ((m.moved f).start.getD (keyword.moved f).span).merge ending.2 }) := by
    apply (expect_follows _).discard.bind
    intro _
    apply (entries_follows (param_follows hf)).bind
    intro params
    apply (typeExpr_follows hf).bind
    intro result
    apply (functionBody_follows hf).bind
    intro ending
    apply Follows.pure
    simp only [FunctionItem.moved, Span.moved_merge hf, Modifiers.moved, getD_moved]
    cases name <;> rfl
  cases name with
  | none => exact hrest
  | some t =>
    apply (mention_follows _).bind
    intro _
    exact hrest

theorem annotation_follows (hf : Monotone f) :
    Follows f (Option.map (TypeExpr.moved f)) annotation annotation := by
  apply (eat_follows _).bind
  intro colon
  cases colon with
  | none => exact .pure rfl
  | some t =>
    apply (typeExpr_follows hf).bind
    intro type
    exact .pure rfl

theorem variableAfter_follows (hf : Monotone f) (m : Modifiers) (kind : TokenKind) :
    Follows f (VariableItem.moved f) (variableAfter m kind) (variableAfter (m.moved f) kind) := by
  apply (expect_follows _).bind
  intro keyword
  apply identifier_follows.bind
  intro name
  apply (annotation_follows hf).bind
  intro type
  have hend : Follows f (VariableItem.moved f) (do
      let semicolon ← expect .semicolon
      return {
        name := name.1
        type
        isConst := keyword.kind = .constKeyword
        isPublic := m.isPublic
        span := (m.start.getD keyword.span).merge semicolon.span } : Reader VariableItem) (do
      let semicolon ← expect .semicolon
      return {
        name := name.1
        type := type.map (TypeExpr.moved f)
        isConst := keyword.kind = .constKeyword
        isPublic := m.isPublic
        span := ((m.moved f).start.getD (keyword.moved f).span).merge semicolon.span }) := by
    apply (expect_follows _).bind
    intro semicolon
    apply Follows.pure
    simp only [VariableItem.moved, Span.moved_merge hf, Modifiers.moved, getD_moved]
    rfl
  apply (eat_follows _).bind
  intro equals
  cases equals with
  | none => exact hend
  | some t =>
    have hskip : Follows f id (ofTokens fun tokens => (initializerRest tokens).map (((), ·)))
        (ofTokens fun tokens => (initializerRest tokens).map (((), ·))) :=
      ofTokens_follows initializerRest_moved
    apply hskip.bind
    intro _
    exact hend

theorem testBlock_follows (hf : Monotone f) :
    Follows f (TestItem.moved f) testBlock testBlock := by
  apply (expect_follows _).bind
  intro keyword
  apply (eat_follows _).bind
  intro name
  apply (block_follows hf).bind
  intro body
  apply Follows.pure
  rw [TestItem.moved, Span.moved_merge hf]
  cases name <;> rfl

/-- A function or variable, after its modifiers. -/
theorem declared_follows (hf : Monotone f) (m : Modifiers) :
    Follows f (Item.moved f) (do
      match ← peek with
      | some .fnKeyword => return .function (← function m)
      | some .varKeyword => return .variable (← variableAfter m .varKeyword)
      | some .constKeyword => return .variable (← variableAfter m .constKeyword)
      | found => fail (.expectedItem found) (← here) : Reader Item) (do
      match ← peek with
      | some .fnKeyword => return .function (← function (m.moved f))
      | some .varKeyword => return .variable (← variableAfter (m.moved f) .varKeyword)
      | some .constKeyword => return .variable (← variableAfter (m.moved f) .constKeyword)
      | found => fail (.expectedItem found) (← here)) := by
  apply peek_follows.bind
  intro found
  have hfail : Follows f (Item.moved f)
      (do fail (.expectedItem found) (← here) : Reader Item)
      (do fail (.expectedItem found) (← here)) := by
    apply here_follows.bind
    intro span
    exact fail_follows
  cases found with
  | none => exact hfail
  | some kind =>
    cases kind with
    | fnKeyword => exact (function_follows hf m).bind fun item => .pure rfl
    | varKeyword => exact (variableAfter_follows hf m _).bind fun item => .pure rfl
    | constKeyword => exact (variableAfter_follows hf m _).bind fun item => .pure rfl
    | _ => exact hfail

/-- An item is read from moved tokens as from the tokens, moved. -/
theorem item_follows (hf : Monotone f) : Follows f (Item.moved f) item item := by
  have hmodifiers : Follows f (Modifiers.moved f) (ofTokens (modifiers {}))
      (ofTokens (modifiers {})) := ofTokens_follows (modifiers_moved {})
  apply peek_follows.bind
  intro found
  cases found with
  | none => exact hmodifiers.bind (declared_follows hf)
  | some kind =>
    cases kind with
    | comptimeKeyword =>
      apply (expect_follows _).bind
      intro keyword
      apply (block_follows hf).bind
      intro body
      apply Follows.pure
      rw [Item.moved, Span.moved_merge hf]
      rfl
    | testKeyword => exact (testBlock_follows hf).bind fun t => .pure rfl
    | _ => exact hmodifiers.bind (declared_follows hf)

end Reader

/-! ## Files -/

open Reader Grammar

variable {f : Nat → Nat} {stop fuel : Nat} {tokens used rest : List Token}
  {pieces : List (List Token × Item)}

/-- The items of moved tokens are those of the tokens, moved, and so is the error. -/
theorem itemsWithin_moved (hf : Monotone f) :
    itemsWithin (f stop) fuel (tokens.map (Token.moved f)) =
      (itemsWithin stop fuel tokens).moved f := by
  induction fuel generalizing tokens with
  | zero => rfl
  | succ fuel ih =>
    cases tokens with
    | nil => rfl
    | cons t ts =>
      have hitem := item_follows hf stop (t :: ts)
      rw [List.map_cons] at hitem
      rw [List.map_cons, itemsWithin, itemsWithin, hitem]
      cases item stop (t :: ts) with
      | failed e names => rfl
      | done node names rest =>
        dsimp only [Reading.moved]
        rw [ih]
        rfl

theorem length_lt_of_item {node : Item} {names : List String}
    (h : item stop tokens = .done node names rest) : rest.length < tokens.length := by
  obtain ⟨used, rfl, hnode, -⟩ := item_reads.1 h
  have hpos := List.length_pos_iff.2 hnode.ne_nil
  rw [List.length_append]
  omega

/-- As many rounds as there are tokens are enough. -/
theorem itemsWithin_eq_of_le {fuel' : Nat} (hfuel : tokens.length ≤ fuel)
    (hfuel' : tokens.length ≤ fuel') :
    itemsWithin stop fuel tokens = itemsWithin stop fuel' tokens := by
  induction fuel generalizing fuel' tokens with
  | zero =>
    obtain rfl := List.eq_nil_of_length_eq_zero (Nat.le_zero.1 hfuel)
    cases fuel' <;> rfl
  | succ fuel ih =>
    cases tokens with
    | nil => cases fuel' <;> rfl
    | cons t ts =>
      obtain ⟨fuel', rfl⟩ := Nat.exists_eq_succ_of_ne_zero (n := fuel') (by
        rw [List.length_cons] at hfuel'
        omega)
      rw [itemsWithin, itemsWithin]
      cases hitem : item stop (t :: ts) with
      | failed e names => rfl
      | done node names rest =>
        have hlength := length_lt_of_item hitem
        dsimp only
        rw [ih (by omega) (by omega : rest.length ≤ fuel')]

/-- After whole items the rest of the tokens is read as it is alone. -/
theorem itemsOf_append (h : Derivation used pieces) :
    itemsOf stop (used ++ rest) =
      { items := pieces.map (·.2) ++ (itemsOf stop rest).items
        error := (itemsOf stop rest).error
        names := pieces.flatMap (·.2.names) ++ (itemsOf stop rest).names } := by
  induction h with
  | nil => rfl
  | @cons used more node pieces hnode _ ih =>
    obtain ⟨t, ts, rfl⟩ := List.exists_cons_of_ne_nil hnode.ne_nil
    have hread : item stop (t :: (ts ++ (more ++ rest))) = .done node node.names (more ++ rest) :=
      item_reads.2 ⟨t :: ts, rfl, hnode, rfl⟩
    have hlength : (more ++ rest).length ≤ (ts ++ (more ++ rest)).length := by simp
    rw [List.append_assoc, List.cons_append, itemsOf, List.length_cons, itemsWithin, hread]
    dsimp only
    rw [itemsWithin_eq_of_le hlength le_rfl, ← itemsOf, ih]
    simp

end IncrementalBuild
