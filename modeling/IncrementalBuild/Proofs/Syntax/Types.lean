import IncrementalBuild.Proofs.Syntax.Readers

set_option autoImplicit false

namespace IncrementalBuild

namespace Reader

open Grammar

variable {stop : Nat} {tokens rest : List Token} {names : List String}

/-- Blocks are read as they are spelled. -/
theorem block_reads : block.Reads Block fun _ => [] := by
  intro stop tokens span names rest
  rw [block, expect_bind_eq_done]
  simp only [ofTokens_bind_eq_done, pure_eq_done, closing_eq_ok]
  constructor
  · rintro ⟨opener, _, rfl, hopener, closer, more, ⟨run, rfl, hrun, hpair⟩, rfl, rfl, rfl⟩
    rw [hopener] at hpair
    have hcloser : closer.kind = .rightBrace := (Option.some.inj hpair).symm
    exact ⟨opener :: (run ++ [closer]), by simp, .braces hopener hrun hcloser, rfl⟩
  · rintro ⟨_, rfl, ⟨hopener, hrun, hcloser⟩, rfl⟩
    rename_i opener closer run
    have hpair : opener.kind.closer? = some closer.kind := by rw [hopener, hcloser]; rfl
    exact ⟨opener, _, rfl, hopener, closer, rest, ⟨run, by simp, hrun, hpair⟩, rfl, rfl, rfl⟩

theorem qualifiers_eq_ok {isConst isVolatile : Bool} {found : Bool × Bool} :
    qualifiers isConst isVolatile tokens = .ok (found, rest) ↔
      ∃ used, tokens = used ++ rest ∧ Qualifiers used ∧
        found = (isConst || has .constKeyword used, isVolatile || has .volatileKeyword used) ∧
        ∀ t ∈ rest.head?, t.kind ≠ .constKeyword ∧ t.kind ≠ .volatileKeyword := by
  constructor
  · intro h
    fun_induction qualifiers isConst isVolatile tokens with
    | case1 isConst isVolatile =>
      cases h
      exact ⟨[], rfl, by simp [Qualifiers], by simp [has], by simp⟩
    | case2 isConst isVolatile t us hkind ih =>
      obtain ⟨used, rfl, hused, rfl, hhead⟩ := ih h
      refine ⟨t :: used, rfl, ?_, by simp [has, hkind], hhead⟩
      exact List.forall_mem_cons.2 ⟨.inl hkind, hused⟩
    | case3 isConst isVolatile t us hkind ih =>
      obtain ⟨used, rfl, hused, rfl, hhead⟩ := ih h
      refine ⟨t :: used, rfl, ?_, by simp [has, hkind], hhead⟩
      exact List.forall_mem_cons.2 ⟨.inr hkind, hused⟩
    | case4 isConst isVolatile t us hconst hvolatile =>
      cases h
      exact ⟨[], rfl, by simp [Qualifiers], by simp [has], by simpa using ⟨hconst, hvolatile⟩⟩
  · rintro ⟨used, rfl, hused, rfl, hhead⟩
    induction used generalizing isConst isVolatile with
    | nil =>
      cases rest with
      | nil => simp [qualifiers, has]
      | cons t rest =>
        obtain ⟨hconst, hvolatile⟩ := hhead t rfl
        rw [List.nil_append, qualifiers]
        split
        · contradiction
        · contradiction
        · simp [has]
    | cons t used ih =>
      obtain ⟨hkind, hused⟩ := List.forall_mem_cons.1 hused
      rcases hkind with hkind | hkind
      · simp [qualifiers, hkind, ih hused, has]
      · simp [qualifiers, hkind, ih hused, has]

theorem eat_of_kind {t : Token} {kind : TokenKind} (h : t.kind = kind) :
    eat kind stop (t :: rest) = .done (some t) [] rest := by
  rw [eat, if_pos h]

/-- A literal is an array length if it has a value, and an error over itself if it has none. -/
theorem arrayLength_eq {t : Token} (hkind : t.kind = .integer) : arrayLength stop (t :: rest) =
    match literalValue? t.text with
    | some length => .done length [] rest
    | none => .failed { cause := .invalidLength t.text, span := t.span } [] := by
  have hexpect : expectOr .integer .expectedLength stop (t :: rest) = .done t [] rest := by
    rw [expectOr, silent_bind (eat_of_kind hkind)]
    rfl
  rw [arrayLength, silent_bind hexpect]
  cases literalValue? t.text <;> rfl

theorem arrayLength_bind_eq_done {β : Type} {f : Nat → Reader β} {b : β} :
    (arrayLength >>= f) stop tokens = .done b names rest ↔
      ∃ t more length, tokens = t :: more ∧ t.kind = .integer ∧
        literalValue? t.text = some length ∧ f length stop more = .done b names rest := by
  constructor
  · intro h
    obtain ⟨length, _, _, _, hlength, hf, rfl⟩ := bind_eq_done.1 h
    have hread := hlength
    rw [arrayLength, expectOr_bind_eq_done] at hread
    obtain ⟨t, more, rfl, hkind, -⟩ := hread
    rw [arrayLength_eq hkind] at hlength
    cases hliteral : literalValue? t.text with
    | none =>
      rw [hliteral] at hlength
      cases hlength
    | some n =>
      rw [hliteral] at hlength
      cases hlength
      exact ⟨t, _, _, rfl, hkind, hliteral, hf⟩
  · rintro ⟨t, more, length, rfl, hkind, hliteral, hf⟩
    have hlength : arrayLength stop (t :: more) = .done length [] more := by
      rw [arrayLength_eq hkind, hliteral]
    exact (silent_bind_eq_done hlength).2 hf

section

variable {α : Type} {entry : Reader α} {P : List Token → α → Prop} {namesOf : α → List String}

theorem entriesWithin_sound (h : entry.Reads P namesOf) {fuel : Nat} {as : List α}
    (hdone : entriesWithin entry fuel stop tokens = .done as names rest) :
    ∃ used, tokens = used ++ rest ∧ Entries P used as ∧ names = as.flatMap namesOf := by
  induction fuel generalizing tokens as names with
  | zero =>
    rw [entriesWithin, peek_bind_eq_done, here_bind_eq_done] at hdone
    exact absurd hdone fail_ne_done
  | succ fuel ih =>
    rw [entriesWithin, eat_bind_eq_done] at hdone
    obtain ⟨closer, _, rfl, hcloser, hdone⟩ | ⟨-, hdone⟩ := hdone
    · obtain ⟨rfl, rfl, rfl⟩ := pure_eq_done.1 hdone
      exact ⟨[closer], rfl, .close hcloser, rfl⟩
    obtain ⟨used, a, _, _, rfl, hused, hnext, rfl⟩ := h.bind_eq_done.1 hdone
    rw [eat_bind_eq_done] at hnext
    obtain ⟨comma, _, rfl, hcomma, hnext⟩ | ⟨-, hnext⟩ := hnext
    · obtain ⟨as, _, _, _, has, hpure, rfl⟩ := bind_eq_done.1 hnext
      obtain ⟨rfl, rfl, rfl⟩ := pure_eq_done.1 hpure
      obtain ⟨more, rfl, hmore, rfl⟩ := ih has
      exact ⟨used ++ comma :: more, by simp, .more hused hcomma hmore, by simp⟩
    · obtain ⟨closer, _, rfl, hcloser, hpure⟩ :=
        expect_bind_eq_done.1 (discard_bind_eq_done.1 hnext)
      obtain ⟨rfl, rfl, rfl⟩ := pure_eq_done.1 hpure
      exact ⟨used ++ [closer], by simp, .last hused hcloser, by simp⟩

theorem entriesWithin_complete (h : entry.Reads P namesOf)
    (hP : ∀ used a, P used a → ∃ t more, used = t :: more ∧ t.kind ≠ .rightParen)
    {fuel : Nat} {used : List Token} {as : List α} (has : Entries P used as)
    (hfuel : used.length ≤ fuel) :
    entriesWithin entry fuel stop (used ++ rest) = .done as (as.flatMap namesOf) rest := by
  -- an entry does not start with the closing parenthesis, so that is looked for in vain
  have hnone {used more : List Token} {a : α} (ha : P used a) :
      (used ++ more).head?.map Token.kind ≠ some .rightParen := by
    obtain ⟨t, _, rfl, ht⟩ := hP used a ha
    simpa using ht
  induction has generalizing fuel with
  | @close closer hcloser =>
    obtain ⟨fuel, rfl⟩ := Nat.exists_eq_succ_of_ne_zero (Nat.ne_zero_of_lt hfuel)
    rw [entriesWithin, eat_bind_eq_done]
    exact .inl ⟨closer, rest, rfl, hcloser, rfl⟩
  | @last used a closer ha hcloser =>
    rw [List.length_append, List.length_singleton] at hfuel
    obtain ⟨fuel, rfl⟩ := Nat.exists_eq_succ_of_ne_zero (n := fuel) (by omega)
    rw [List.append_assoc, entriesWithin, eat_bind_eq_done]
    refine .inr ⟨hnone ha, h.bind_eq_done.2 ⟨used, a, closer :: rest, [], rfl, ha, ?_, by simp⟩⟩
    refine eat_bind_eq_done.2 (.inr ⟨by simp [hcloser], ?_⟩)
    exact discard_bind_eq_done.2 (expect_bind_eq_done.2 ⟨closer, rest, rfl, hcloser, rfl⟩)
  | @more used more a as comma ha hcomma _ ih =>
    rw [List.length_append, List.length_cons] at hfuel
    obtain ⟨fuel, rfl⟩ := Nat.exists_eq_succ_of_ne_zero (n := fuel) (by omega)
    rw [List.append_assoc, entriesWithin, eat_bind_eq_done]
    refine .inr ⟨hnone ha, h.bind_eq_done.2
      ⟨used, a, comma :: more ++ rest, as.flatMap namesOf, rfl, ha, ?_, rfl⟩⟩
    refine eat_bind_eq_done.2 (.inl ⟨comma, more ++ rest, rfl, hcomma, ?_⟩)
    exact bind_eq_done.2 ⟨as, _, rest, [], ih (by omega), rfl, (List.append_nil _).symm⟩

/-- Entries are read as they are spelled, if none starts with the parenthesis that closes
them. -/
theorem entries_reads (h : entry.Reads P namesOf)
    (hP : ∀ used a, P used a → ∃ t more, used = t :: more ∧ t.kind ≠ .rightParen) :
    (entries entry).Reads (Entries P) (·.flatMap namesOf) := by
  intro stop tokens as names rest
  constructor
  · exact entriesWithin_sound h
  · rintro ⟨used, rfl, has, rfl⟩
    refine entriesWithin_complete h hP has ?_
    rw [List.length_append]
    omega

end

/-- The kinds of token a type can start with. -/
def StartsType (k : TokenKind) : Prop :=
  k ∈ [TokenKind.identifier, .star, .leftBracket, .fnKeyword]

instance (k : TokenKind) : Decidable (StartsType k) :=
  inferInstanceAs (Decidable (k ∈ [TokenKind.identifier, .star, .leftBracket, .fnKeyword]))

theorem exists_startsType {levels : Nat} {used : List Token} {e : TypeExpr}
    (h : TypeOf levels used e) : ∃ t more, used = t :: more ∧ StartsType t.kind := by
  cases levels with
  | zero => exact h.elim
  | succ levels =>
    cases h with
    | named hkind => exact ⟨_, _, rfl, by rw [hkind]; decide⟩
    | pointer hkind => exact ⟨_, _, rfl, by rw [hkind]; decide⟩
    | manyPointer hkind => exact ⟨_, _, rfl, by rw [hkind]; decide⟩
    | array hkind => exact ⟨_, _, rfl, by rw [hkind]; decide⟩
    | function hkind => exact ⟨_, _, rfl, by rw [hkind]; decide⟩

theorem pointerTo_eq_done {levels : Nat}
    (h : (typeWithin levels).Reads (TypeOf levels) TypeExpr.names) {start : Span} {isMany : Bool}
    {e : TypeExpr} :
    pointerTo start isMany (typeWithin levels) stop tokens = .done e names rest ↔
      ∃ qualifiers used target, tokens = qualifiers ++ (used ++ rest) ∧ Qualifiers qualifiers ∧
        TypeOf levels used target ∧
        e = .pointer (has .constKeyword qualifiers) (has .volatileKeyword qualifiers) isMany
          target (start.merge target.span) ∧
        names = target.names := by
  unfold pointerTo
  simp only [ofTokens_bind_eq_done, h.bind_eq_done, pure_eq_done, qualifiers_eq_ok]
  constructor
  · rintro ⟨_, _, ⟨qualifiers, rfl, hqualifiers, rfl, -⟩, used, target, _, _, rfl, hused,
      ⟨rfl, rfl, rfl⟩, rfl⟩
    refine ⟨qualifiers, used, target, rfl, hqualifiers, hused, ?_, by simp⟩
    simp only [Bool.false_or]
  · rintro ⟨qualifiers, used, target, rfl, hqualifiers, hused, rfl, rfl⟩
    refine ⟨_, used ++ rest, ⟨qualifiers, rfl, hqualifiers, rfl, ?_⟩, used, target, rest, [], rfl,
      hused, ⟨?_, rfl, rfl⟩, (List.append_nil _).symm⟩
    · obtain ⟨t, more, rfl, ht⟩ := exists_startsType hused
      rintro u ⟨⟩
      constructor <;> (intro hu; rw [hu] at ht; revert ht; decide)
    · simp only [Bool.false_or]

theorem typeEntries_reads {levels : Nat}
    (h : (typeWithin levels).Reads (TypeOf levels) TypeExpr.names) :
    (entries (typeWithin levels)).Reads (Entries (TypeOf levels)) (·.flatMap TypeExpr.names) := by
  refine entries_reads h fun used e he => ?_
  obtain ⟨t, more, rfl, ht⟩ := exists_startsType he
  refine ⟨t, more, rfl, ?_⟩
  intro hkind
  rw [hkind] at ht
  revert ht
  decide

theorem typeWithin_sound {levels : Nat}
    (ih : (typeWithin levels).Reads (TypeOf levels) TypeExpr.names) {e : TypeExpr}
    (hdone : typeWithin (levels + 1) stop tokens = .done e names rest) :
    ∃ used, tokens = used ++ rest ∧ TypeOf (levels + 1) used e ∧ names = e.names := by
  rw [typeWithin, here_bind_eq_done, peek_bind_eq_done] at hdone
  cases tokens with
  | nil => exact absurd hdone fail_ne_done
  | cons t tokens =>
    simp only [List.head?_cons, Option.map_some, Option.getD_some] at hdone
    cases hkind : t.kind with
    | identifier =>
      rw [hkind] at hdone
      obtain ⟨_, _, _, heq, -, hpure, rfl⟩ := identifier_bind_eq_done.1 hdone
      cases heq
      obtain ⟨rfl, rfl, rfl⟩ := pure_eq_done.1 hpure
      exact ⟨[t], rfl, .named hkind, by simp [TypeExpr.names]⟩
    | star =>
      rw [hkind] at hdone
      obtain ⟨_, _, heq, -, hpointer⟩ | ⟨hne, -⟩ :=
        eat_bind_eq_done.1 (discard_bind_eq_done.1 hdone)
      · cases heq
        obtain ⟨qualifiers, used, target, rfl, hqualifiers, hused, rfl, rfl⟩ :=
          (pointerTo_eq_done ih).1 hpointer
        exact ⟨t :: (qualifiers ++ used), by simp, .pointer hkind hqualifiers hused,
          by simp [TypeExpr.names]⟩
      · simp [hkind] at hne
    | leftBracket =>
      rw [hkind] at hdone
      obtain ⟨_, _, heq, -, hnext⟩ | ⟨hne, -⟩ :=
        eat_bind_eq_done.1 (discard_bind_eq_done.1 hdone)
      · cases heq
        obtain ⟨star, _, rfl, hstar, hnext⟩ | ⟨-, hnext⟩ := eat_bind_eq_done.1 hnext
        · obtain ⟨closer, _, rfl, hcloser, hpointer⟩ :=
            expect_bind_eq_done.1 (discard_bind_eq_done.1 hnext)
          obtain ⟨qualifiers, used, target, rfl, hqualifiers, hused, rfl, rfl⟩ :=
            (pointerTo_eq_done ih).1 hpointer
          exact ⟨t :: star :: closer :: (qualifiers ++ used), by simp,
            .manyPointer hkind hstar hcloser hqualifiers hused, by simp [TypeExpr.names]⟩
        · obtain ⟨literal, _, length, rfl, hliteral, hlength, hnext⟩ :=
            arrayLength_bind_eq_done.1 hnext
          obtain ⟨closer, _, rfl, hcloser, hnext⟩ :=
            expect_bind_eq_done.1 (discard_bind_eq_done.1 hnext)
          obtain ⟨used, element, _, _, rfl, hused, hpure, rfl⟩ := ih.bind_eq_done.1 hnext
          obtain ⟨rfl, rfl, rfl⟩ := pure_eq_done.1 hpure
          exact ⟨t :: literal :: closer :: used, rfl,
            .array hkind hliteral hlength hcloser hused, by simp [TypeExpr.names]⟩
      · simp [hkind] at hne
    | fnKeyword =>
      rw [hkind] at hdone
      obtain ⟨_, _, heq, -, hnext⟩ | ⟨hne, -⟩ :=
        eat_bind_eq_done.1 (discard_bind_eq_done.1 hdone)
      · cases heq
        obtain ⟨opener, _, rfl, hopener, hnext⟩ :=
          expect_bind_eq_done.1 (discard_bind_eq_done.1 hnext)
        obtain ⟨used, params, _, _, rfl, hparams, hlast, rfl⟩ :=
          (typeEntries_reads ih).bind_eq_done.1 hnext
        obtain ⟨more, result, _, _, rfl, hresult, hpure, rfl⟩ := ih.bind_eq_done.1 hlast
        obtain ⟨rfl, rfl, rfl⟩ := pure_eq_done.1 hpure
        exact ⟨t :: opener :: (used ++ more), by simp,
          .function hkind hopener hparams hresult, by simp [TypeExpr.names]⟩
      · simp [hkind] at hne
    | _ =>
      rw [hkind] at hdone
      exact absurd hdone fail_ne_done

theorem typeWithin_complete {levels : Nat}
    (ih : (typeWithin levels).Reads (TypeOf levels) TypeExpr.names) {used : List Token}
    {e : TypeExpr} (he : TypeOf (levels + 1) used e) :
    typeWithin (levels + 1) stop (used ++ rest) = .done e e.names rest := by
  rw [typeWithin, here_bind_eq_done, peek_bind_eq_done]
  cases he with
  | @named t hkind =>
    simp only [List.singleton_append, List.head?_cons, Option.map_some, hkind]
    refine identifier_bind_eq_done.2 ⟨t, rest, [], rfl, hkind, rfl, ?_⟩
    simp [TypeExpr.names]
  | @pointer star qualifiers used target hstar hqualifiers hused =>
    simp only [List.cons_append, List.head?_cons, Option.map_some, hstar]
    refine discard_bind_eq_done.2 (eat_bind_eq_done.2 (.inl ⟨star, _, rfl, hstar, ?_⟩))
    refine (pointerTo_eq_done ih).2 ⟨qualifiers, used, target, by simp, hqualifiers, hused, rfl, ?_⟩
    simp [TypeExpr.names]
  | @manyPointer opener star closer qualifiers used target hopener hstar hcloser hqualifiers
      hused =>
    simp only [List.cons_append, List.head?_cons, Option.map_some, hopener]
    refine discard_bind_eq_done.2 (eat_bind_eq_done.2 (.inl ⟨opener, _, rfl, hopener, ?_⟩))
    refine eat_bind_eq_done.2 (.inl ⟨star, _, rfl, hstar, ?_⟩)
    refine discard_bind_eq_done.2 (expect_bind_eq_done.2 ⟨closer, _, rfl, hcloser, ?_⟩)
    refine (pointerTo_eq_done ih).2 ⟨qualifiers, used, target, by simp, hqualifiers, hused, rfl, ?_⟩
    simp [TypeExpr.names]
  | @array opener literal closer length used element hopener hliteral hlength hcloser hused =>
    simp only [List.cons_append, List.head?_cons, Option.map_some, hopener]
    refine discard_bind_eq_done.2 (eat_bind_eq_done.2 (.inl ⟨opener, _, rfl, hopener, ?_⟩))
    refine eat_bind_eq_done.2 (.inr ⟨by simp [hliteral], ?_⟩)
    refine arrayLength_bind_eq_done.2 ⟨literal, _, length, rfl, hliteral, hlength, ?_⟩
    refine discard_bind_eq_done.2 (expect_bind_eq_done.2 ⟨closer, _, rfl, hcloser, ?_⟩)
    refine ih.bind_eq_done.2 ⟨used, element, rest, [], rfl, hused, rfl, ?_⟩
    simp [TypeExpr.names]
  | @function keyword opener used more params result hkeyword hopener hparams hresult =>
    simp only [List.cons_append, List.head?_cons, Option.map_some, hkeyword]
    refine discard_bind_eq_done.2 (eat_bind_eq_done.2 (.inl ⟨keyword, _, rfl, hkeyword, ?_⟩))
    refine discard_bind_eq_done.2 (expect_bind_eq_done.2 ⟨opener, _, rfl, hopener, ?_⟩)
    refine (typeEntries_reads ih).bind_eq_done.2
      ⟨used, params, more ++ rest, result.names, by simp, hparams, ?_, ?_⟩
    · refine ih.bind_eq_done.2 ⟨more, result, rest, [], rfl, hresult, rfl, ?_⟩
      simp
    · simp [TypeExpr.names]

/-- Types are read as they are spelled. -/
theorem typeWithin_reads (levels : Nat) :
    (typeWithin levels).Reads (TypeOf levels) TypeExpr.names := by
  induction levels with
  | zero =>
    intro stop tokens e names rest
    constructor
    · intro hdone
      rw [typeWithin, here_bind_eq_done] at hdone
      exact absurd hdone fail_ne_done
    · rintro ⟨_, _, hfalse, _⟩
      exact hfalse.elim
  | succ levels ih =>
    intro stop tokens e names rest
    constructor
    · exact typeWithin_sound ih
    · rintro ⟨used, rfl, he, rfl⟩
      exact typeWithin_complete ih he

end Reader

end IncrementalBuild
