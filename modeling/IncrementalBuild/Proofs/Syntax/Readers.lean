import IncrementalBuild.Proofs.Syntax.Grammar

set_option autoImplicit false

namespace IncrementalBuild

namespace Reader

variable {α β : Type} {stop : Nat} {tokens rest : List Token} {names : List String}

/-! ## When a reader is done -/

theorem pure_eq_done {a b : α} :
    (pure a : Reader α) stop tokens = .done b names rest ↔
      a = b ∧ names = [] ∧ tokens = rest := by
  change Reading.done a [] tokens = .done b names rest ↔ _
  rw [Reading.done.injEq, eq_comm (a := []) (b := names)]

theorem bind_eq_done {r : Reader α} {f : α → Reader β} {b : β} :
    (r >>= f) stop tokens = .done b names rest ↔
      ∃ a first middle more, r stop tokens = .done a first middle ∧
        f a stop middle = .done b more rest ∧ names = first ++ more := by
  change Reader.bind r f stop tokens = _ ↔ _
  unfold Reader.bind
  constructor
  · intro h
    cases hr : r stop tokens with
    | failed e first => rw [hr] at h; cases h
    | done a first middle =>
      rw [hr] at h
      dsimp only at h
      cases hf : f a stop middle with
      | failed e more => rw [hf] at h; cases h
      | done b' more rest' =>
        rw [hf] at h
        cases h
        exact ⟨a, first, middle, more, rfl, hf, rfl⟩
  · rintro ⟨a, first, middle, more, hr, hf, rfl⟩
    rw [hr]
    dsimp only
    rw [hf]

theorem fail_ne_done {cause : SyntaxCause} {span : Span} {a : α} :
    (fail cause span : Reader α) stop tokens ≠ .done a names rest := by
  intro h
  cases h

/-- What follows a reader that names nothing goes on where that leaves off. -/
theorem silent_bind {r : Reader α} {f : α → Reader β} {a : α} {middle : List Token}
    (h : r stop tokens = .done a [] middle) : (r >>= f) stop tokens = f a stop middle := by
  change Reader.bind r f stop tokens = _
  unfold Reader.bind
  rw [h]
  dsimp only
  cases f a stop middle <;> rfl

theorem failed_bind {r : Reader α} {f : α → Reader β} {e : SyntaxError}
    (h : r stop tokens = .failed e names) : (r >>= f) stop tokens = .failed e names := by
  change Reader.bind r f stop tokens = _
  unfold Reader.bind
  rw [h]

/-- A reader that starts with one that names nothing. -/
theorem silent_bind_eq_done {r : Reader α} {f : α → Reader β} {a : α} {middle : List Token}
    {b : β} (h : r stop tokens = .done a [] middle) :
    (r >>= f) stop tokens = .done b names rest ↔ f a stop middle = .done b names rest := by
  rw [silent_bind h]

theorem discard_bind_eq_done {r : Reader α} {f : PUnit → Reader β} {b : β} :
    (discard r >>= f) stop tokens = .done b names rest ↔
      (r >>= fun _ => f PUnit.unit) stop tokens = .done b names rest := by
  change ((r >>= fun _ => pure PUnit.unit) >>= f) stop tokens = _ ↔ _
  simp only [bind_eq_done, pure_eq_done]
  constructor
  · rintro ⟨_, _, _, _, ⟨a, _, _, _, hr, ⟨-, rfl, rfl⟩, rfl⟩, hf, rfl⟩
    exact ⟨a, _, _, _, hr, hf, by rw [List.append_nil]⟩
  · rintro ⟨a, _, _, _, hr, hf, rfl⟩
    exact ⟨_, _, _, _, ⟨a, _, _, [], hr, ⟨trivial, rfl, rfl⟩, (List.append_nil _).symm⟩, hf, rfl⟩

variable {f : Token → Reader β} {b : β}

theorem here_bind_eq_done {f : Span → Reader β} :
    (here >>= f) stop tokens = .done b names rest ↔
      f ((tokens.head?.map Token.span).getD (.point stop)) stop tokens = .done b names rest :=
  silent_bind_eq_done rfl

theorem peek_bind_eq_done {f : Option TokenKind → Reader β} :
    (peek >>= f) stop tokens = .done b names rest ↔
      f (tokens.head?.map Token.kind) stop tokens = .done b names rest :=
  silent_bind_eq_done rfl

theorem eat_bind_eq_done {kind : TokenKind} {f : Option Token → Reader β} :
    (eat kind >>= f) stop tokens = .done b names rest ↔
      (∃ t more, tokens = t :: more ∧ t.kind = kind ∧
        f (some t) stop more = .done b names rest) ∨
      (tokens.head?.map Token.kind ≠ some kind ∧ f none stop tokens = .done b names rest) := by
  cases tokens with
  | nil =>
    have hread : eat kind stop [] = .done none [] [] := rfl
    rw [silent_bind_eq_done hread]
    simp
  | cons t more =>
    by_cases hkind : t.kind = kind
    · have hread : eat kind stop (t :: more) = .done (some t) [] more := if_pos hkind
      rw [silent_bind_eq_done hread]
      constructor
      · exact fun hf => .inl ⟨t, more, rfl, hkind, hf⟩
      · rintro (⟨_, _, heq, -, hf⟩ | ⟨hne, -⟩)
        · cases heq
          exact hf
        · exact absurd (congrArg some hkind) hne
    · have hread : eat kind stop (t :: more) = .done none [] (t :: more) := if_neg hkind
      rw [silent_bind_eq_done hread]
      simp [hkind]

theorem expectOr_bind_eq_done {kind : TokenKind} {cause : Option TokenKind → SyntaxCause} :
    (expectOr kind cause >>= f) stop tokens = .done b names rest ↔
      ∃ t more, tokens = t :: more ∧ t.kind = kind ∧ f t stop more = .done b names rest := by
  constructor
  · intro h
    obtain ⟨t, _, _, _, hexpect, hf, rfl⟩ := bind_eq_done.1 h
    rw [expectOr, eat_bind_eq_done] at hexpect
    obtain ⟨t', more, rfl, hkind, hpure⟩ | ⟨-, hfail⟩ := hexpect
    · obtain ⟨rfl, rfl, rfl⟩ := pure_eq_done.1 hpure
      exact ⟨t', _, rfl, hkind, hf⟩
    · rw [peek_bind_eq_done, here_bind_eq_done] at hfail
      exact absurd hfail fail_ne_done
  · rintro ⟨t, more, rfl, hkind, hf⟩
    have hexpect : expectOr kind cause stop (t :: more) = .done t [] more := by
      rw [expectOr, eat_bind_eq_done]
      exact .inl ⟨t, more, rfl, hkind, rfl⟩
    exact (silent_bind_eq_done hexpect).2 hf

theorem expect_bind_eq_done {kind : TokenKind} :
    (expect kind >>= f) stop tokens = .done b names rest ↔
      ∃ t more, tokens = t :: more ∧ t.kind = kind ∧ f t stop more = .done b names rest :=
  expectOr_bind_eq_done

theorem identifier_bind_eq_done {f : String × Span → Reader β} :
    (identifier >>= f) stop tokens = .done b names rest ↔
      ∃ t more later, tokens = t :: more ∧ t.kind = .identifier ∧
        f (t.text, t.span) stop more = .done b later rest ∧ names = t.text :: later := by
  constructor
  · intro h
    obtain ⟨_, _, _, _, hname, hf, rfl⟩ := bind_eq_done.1 h
    rw [identifier, expectOr_bind_eq_done] at hname
    obtain ⟨t, more, rfl, hkind, hname⟩ := hname
    obtain ⟨_, _, _, _, hmention, hpure, rfl⟩ := bind_eq_done.1 hname
    cases hmention
    obtain ⟨rfl, rfl, rfl⟩ := pure_eq_done.1 hpure
    exact ⟨t, _, _, rfl, hkind, hf, rfl⟩
  · rintro ⟨t, more, later, rfl, hkind, hf, rfl⟩
    refine bind_eq_done.2 ⟨(t.text, t.span), [t.text], more, later, ?_, hf, rfl⟩
    rw [identifier, expectOr_bind_eq_done]
    exact ⟨t, more, rfl, hkind, rfl⟩

theorem ofTokens_bind_eq_done {g : List Token → Except SyntaxError (α × List Token)}
    {f : α → Reader β} :
    (ofTokens g >>= f) stop tokens = .done b names rest ↔
      ∃ a more, g tokens = .ok (a, more) ∧ f a stop more = .done b names rest := by
  cases hg : g tokens with
  | error e =>
    rw [bind_eq_done]
    simp [ofTokens, hg]
  | ok answer =>
    obtain ⟨a, more⟩ := answer
    have htokens : ofTokens g stop tokens = .done a [] more := by rw [ofTokens, hg]
    rw [silent_bind_eq_done htokens]
    constructor
    · exact fun hf => ⟨a, more, rfl, hf⟩
    · rintro ⟨_, _, heq, hf⟩
      cases heq
      exact hf

/-- A reader reads what `P` spells, whatever comes after, and reports the names of what it
reads. -/
def Reads (r : Reader α) (P : List Token → α → Prop) (namesOf : α → List String) : Prop :=
  ∀ ⦃stop tokens a names rest⦄, r stop tokens = .done a names rest ↔
    ∃ used, tokens = used ++ rest ∧ P used a ∧ names = namesOf a

theorem Reads.bind_eq_done {r : Reader α} {P : List Token → α → Prop} {namesOf : α → List String}
    (h : r.Reads P namesOf) {f : α → Reader β} :
    (r >>= f) stop tokens = .done b names rest ↔
      ∃ used a middle more, tokens = used ++ middle ∧ P used a ∧
        f a stop middle = .done b more rest ∧ names = namesOf a ++ more := by
  rw [Reader.bind_eq_done]
  constructor
  · rintro ⟨a, _, middle, more, hr, hf, rfl⟩
    obtain ⟨used, rfl, ha, rfl⟩ := h.1 hr
    exact ⟨used, a, middle, more, rfl, ha, hf, rfl⟩
  · rintro ⟨used, a, middle, more, rfl, ha, hf, rfl⟩
    exact ⟨a, namesOf a, middle, more, h.2 ⟨used, rfl, ha, rfl⟩, hf, rfl⟩

end Reader

/-! ## Runs between delimiters -/

section

open Grammar

theorem TokenKind.isOpener_of_closer? {k closer : TokenKind} (h : k.closer? = some closer) :
    k.isOpener = true := by
  rw [TokenKind.isOpener, h, Option.isSome_some]

theorem TokenKind.ne_of_closer? {k closer : TokenKind} (h : k.closer? = some closer) :
    k ≠ .semicolon ∧ k.isCloser = false := by
  cases k <;> simp only [TokenKind.closer?, Option.some.injEq, reduceCtorEq] at h <;>
    exact ⟨by decide, rfl⟩

theorem TokenKind.isCloser_of_closer? {k closer : TokenKind} (h : k.closer? = some closer) :
    closer.isCloser = true ∧ closer.isOpener = false := by
  cases k <;> simp only [TokenKind.closer?, Option.some.injEq, reduceCtorEq] at h <;>
    (subst h; exact ⟨rfl, rfl⟩)

variable {innermost t : Token} {outer run rest tokens : List Token}

theorem closing_opener (h : t.kind.isOpener = true) :
    closing innermost outer (t :: rest) = closing t (innermost :: outer) rest := by
  rw [closing.eq_def]
  dsimp only
  rw [if_pos h]

theorem closing_plain (hopener : t.kind.isOpener = false) (hcloser : t.kind.isCloser = false) :
    closing innermost outer (t :: rest) = closing innermost outer rest := by
  rw [closing.eq_def]
  dsimp only
  rw [hopener, hcloser]
  rfl

theorem closing_closer (h : innermost.kind.closer? = some t.kind) :
    closing innermost outer (t :: rest) =
      match outer with
      | [] => .ok (t, rest)
      | next :: outer => closing next outer rest := by
  obtain ⟨hcloser, hopener⟩ := TokenKind.isCloser_of_closer? h
  rw [closing.eq_def]
  dsimp only
  rw [hopener, hcloser, if_pos h]
  rfl

theorem closing_balanced (h : Balanced run) :
    closing innermost outer (run ++ rest) = closing innermost outer rest := by
  induction h generalizing innermost outer rest with
  | nil => rfl
  | plain hopener hcloser _ ih =>
    rw [List.cons_append, closing_plain hopener hcloser]
    exact ih
  | nested hpair _ _ ihinner ihrest =>
    rw [List.cons_append, List.append_assoc, closing_opener (TokenKind.isOpener_of_closer? hpair),
      ihinner, List.cons_append, closing_closer hpair]
    exact ihrest

/-- An open run goes up to the partner of the innermost opener, where the next one becomes
innermost. -/
theorem exists_of_closing (h : closing innermost outer tokens = .ok (t, rest)) :
    ∃ run closer more, tokens = run ++ closer :: more ∧ Balanced run ∧
      innermost.kind.closer? = some closer.kind ∧
      (match outer with
        | [] => .ok (closer, more)
        | next :: outer => closing next outer more) = Except.ok (t, rest) := by
  -- an opener inside ends after its own run, so that the run around it is looked up in what
  -- comes after, which is no tail of the tokens but is shorter
  induction hn : tokens.length using Nat.strongRecOn generalizing innermost outer tokens with
  | _ n ih =>
    subst hn
    cases tokens with
    | nil => cases h
    | cons u us =>
      by_cases hopener : u.kind.isOpener = true
      · rw [closing_opener hopener] at h
        obtain ⟨inner, c, more, rfl, hinner, hpair, h⟩ := ih us.length (by simp) h rfl
        have hlen : more.length < (u :: (inner ++ c :: more)).length := by
          simp only [List.length_cons, List.length_append]
          omega
        obtain ⟨run, closer, more', rfl, hrun, hpair', h⟩ := ih more.length hlen h rfl
        exact ⟨u :: (inner ++ c :: run), closer, more', by simp, .nested hpair hinner hrun, hpair',
          h⟩
      · rw [Bool.not_eq_true] at hopener
        by_cases hcloser : u.kind.isCloser = true
        · by_cases hpair : innermost.kind.closer? = some u.kind
          · rw [closing_closer hpair] at h
            exact ⟨[], u, us, rfl, .nil, hpair, h⟩
          · rw [closing.eq_def] at h
            dsimp only at h
            rw [hopener, hcloser, if_neg hpair] at h
            cases h
        · rw [Bool.not_eq_true] at hcloser
          rw [closing_plain hopener hcloser] at h
          obtain ⟨run, closer, more, rfl, hrun, hpair, h⟩ := ih us.length (by simp) h rfl
          exact ⟨u :: run, closer, more, rfl, .plain hopener hcloser hrun, hpair, h⟩

/-- A run that is opened once ends after a balanced run with the partner of its opener. -/
theorem closing_eq_ok {opener : Token} :
    closing opener [] tokens = .ok (t, rest) ↔
      ∃ run, tokens = run ++ t :: rest ∧ Balanced run ∧ opener.kind.closer? = some t.kind := by
  constructor
  · intro h
    obtain ⟨run, closer, more, rfl, hrun, hpair, h⟩ := exists_of_closing h
    cases h
    exact ⟨run, rfl, hrun, hpair⟩
  · rintro ⟨run, rfl, hrun, hpair⟩
    rw [closing_balanced hrun, closing_closer hpair]

theorem initializerRest_initializer (h : Initializer run) :
    initializerRest (run ++ rest) = initializerRest rest := by
  induction h with
  | nil => rfl
  | plain hkind hopener hcloser _ ih =>
    rw [List.cons_append, initializerRest, if_neg hkind, hopener, hcloser]
    exact ih
  | @nested opener closer inner rest' hpair hinner _ ih =>
    have hclosing : closing opener [] (inner ++ closer :: (rest' ++ rest)) =
        .ok (closer, rest' ++ rest) := closing_eq_ok.2 ⟨inner, rfl, hinner, hpair⟩
    obtain ⟨hkind, hcloser⟩ := TokenKind.ne_of_closer? hpair
    rw [List.cons_append, List.append_assoc, List.cons_append, initializerRest, if_neg hkind,
      hcloser, TokenKind.isOpener_of_closer? hpair]
    simp only [Bool.false_eq_true, if_false, if_true]
    split
    · rename_i c more hmore
      rw [hclosing] at hmore
      cases hmore
      exact ih
    · rename_i e herror
      rw [hclosing] at herror
      cases herror

/-- What is skipped of an initializer is a balanced run without semicolons outside of its
pairs, up to the first semicolon or to the end. -/
theorem initializerRest_eq_ok :
    initializerRest tokens = .ok rest ↔
      ∃ run, tokens = run ++ rest ∧ Initializer run ∧ ∀ t ∈ rest.head?, t.kind = .semicolon := by
  constructor
  · intro h
    fun_induction initializerRest tokens with
    | case1 =>
      cases h
      exact ⟨[], rfl, .nil, by simp⟩
    | case2 u us hkind =>
      cases h
      exact ⟨[], rfl, .nil, by simpa using hkind⟩
    | case3 => cases h
    | case4 u us hkind hcloser hopener c more hclosing ih =>
      obtain ⟨inner, rfl, hinner, hpair⟩ := closing_eq_ok.1 hclosing
      obtain ⟨run, rfl, hrun, hhead⟩ := ih h
      exact ⟨u :: (inner ++ c :: run), by simp, .nested hpair hinner hrun, hhead⟩
    | case5 u us hkind hcloser hopener e hclosing => cases h
    | case6 u us hkind hcloser hopener ih =>
      obtain ⟨run, rfl, hrun, hhead⟩ := ih h
      rw [Bool.not_eq_true] at hcloser hopener
      exact ⟨u :: run, rfl, .plain hkind hopener hcloser hrun, hhead⟩
  · rintro ⟨run, rfl, hrun, hhead⟩
    rw [initializerRest_initializer hrun]
    cases rest with
    | nil => rw [initializerRest]
    | cons u us => rw [initializerRest, if_pos (hhead u rfl)]

end

end IncrementalBuild
