import IncrementalBuild.Proofs.Syntax.Scanning

/-!
# The tokens of a text are its longest pieces

The lexer takes a text apart into the longest pieces that the patterns of the language match,
one after another. So its tokens stand where they say and in the order of the text, with only
blanks and comments before, between and after them. The first error is at the first place where
the longest piece is a string without its end, or where there is none.
-/

set_option autoImplicit false

namespace IncrementalBuild

/-- A kind with one spelling has no other. -/
theorem Piece.eq_spelling {kind : TokenKind} {w : List Char} {s : String}
    (h : Piece (.token kind) w) (hs : kind.spelling? = some s) : w = s.toList := by
  cases h with
  | word _ _ hk =>
    rcases hk with rfl | rfl
    · cases hs
    · rcases TokenKind.ofWord_cases _ with hk | hk
      · rw [hk] at hs
        cases hs
      · rw [← Option.some.inj (hk.symm.trans hs), String.toList_ofList]
  | sign hsign =>
    rcases TokenKind.ofSign?_eq_some hsign with ⟨rfl, -⟩ | hk
    · cases hs
    · rw [← Option.some.inj (hk.symm.trans hs), String.toList_singleton]
  | _ => cases hs

namespace Longest

variable {kind k : TokenKind} {w text : List Char} {s : String}

/-- The longest piece is of a kind with one spelling exactly if that is how it is spelled. -/
theorem kind_eq_iff (h : Longest (.token kind) w text) (hs : k.spelling? = some s) :
    kind = k ↔ w = s.toList := by
  constructor
  · rintro rfl
    obtain ⟨p, hp, hw⟩ := h.matched
    exact (piece_of_matches hp hw).eq_spelling hs
  · rintro rfl
    have hkind := h.spelled (.token k) s (mem_patterns_text.2 ⟨k, rfl, hs⟩) rfl
    exact (PieceKind.token.inj hkind).symm

theorem gap_matches (h : Longest .gap w text) : Pattern.gap.Matches w := by
  obtain ⟨p, hp, hw⟩ := h.matched
  rcases mem_patterns_iff.1 hp with ⟨k, s, hk, -, -⟩ | hp
  · cases hk
  · simp [openPatterns] at hp
    rwa [← hp]

end Longest

/-- A token stands in a text where it says, and no piece there is longer; it is a keyword or a
sign of its own kind exactly if all of it spells that. -/
structure Token.StandsIn (t : Token) (start : Nat) (text : List Char) : Prop where
  place : ∃ before after, text = before ++ (t.text.toList ++ after) ∧
    t.span = ⟨start + utf8Length before, start + utf8Length before + utf8Length t.text.toList⟩ ∧
    Longest (.token t.kind) t.text.toList (t.text.toList ++ after)
  ends : t.kind ≠ .unterminatedString
  spelled : ∀ kind s, kind.spelling? = some s → (t.kind = kind ↔ t.text = s)

/-- A token stands in a longer text as it does in the end of it. -/
theorem Token.StandsIn.append {t : Token} {start : Nat} {w text : List Char}
    (h : t.StandsIn (start + utf8Length w) text) : t.StandsIn start (w ++ text) where
  place := by
    obtain ⟨before, after, rfl, hspan, hlongest⟩ := h.place
    refine ⟨w ++ before, after, by simp, ?_, hlongest⟩
    rw [hspan, utf8Length_append, Nat.add_assoc start]
  ends := h.ends
  spelled := h.spelled

/-- One more gap before a text leaves its tokens alone. -/
theorem Spaced.gap_append {start : Nat} {w text : List Char} {tokens : List Token}
    (hgap : Pattern.gap.Matches w) (h : Spaced (start + utf8Length w) text tokens) :
    Spaced start (w ++ text) tokens := by
  cases h with
  | last hblank => exact .last (.more hgap hblank)
  | token hblank hspan hmore =>
    rw [← List.append_assoc]
    refine .token (.more hgap hblank) ?_ hmore
    rw [hspan, utf8Length_append, Nat.add_assoc start]

namespace Munched

variable {start stop : Nat} {text rest : List Char} {tokens : List Token}

/-- What was taken apart and what comes after it are the text. -/
theorem split (h : Munched start text tokens stop rest) :
    ∃ before, text = before ++ rest ∧ stop = start + utf8Length before := by
  induction h with
  | done => exact ⟨[], rfl, rfl⟩
  | @gap _ _ w _ _ _ _ _ ih | @token _ _ _ w _ _ _ _ _ _ ih =>
    obtain ⟨before, rfl, rfl⟩ := ih
    exact ⟨w ++ before, by simp, by rw [utf8Length_append, Nat.add_assoc]⟩

/-- Every token stands in the text that was taken apart. -/
theorem standsIn (h : Munched start text tokens stop rest) :
    ∀ t ∈ tokens, t.StandsIn start text := by
  induction h with
  | done => simp
  | gap _ _ ih => exact fun t ht => (ih t ht).append
  | @token start stop kind w text rest tokens hlongest hends _ ih =>
    refine List.forall_mem_cons.2 ⟨⟨⟨[], text, ?_, ?_, ?_⟩, hends, ?_⟩,
      fun t ht => (ih t ht).append⟩
    · simp
    · simp [utf8Length]
    · simpa using hlongest
    · intro k s hs
      rw [hlongest.kind_eq_iff hs, ← String.toList_inj, String.toList_ofList]

/-- A text that was taken apart to its end is its tokens and what separates them. -/
theorem spaced (h : Munched start text tokens stop []) : Spaced start text tokens := by
  generalize hrest : [] = rest at h
  induction h with
  | done =>
    subst hrest
    exact .last .none
  | gap hlongest _ ih =>
    exact (ih hrest).gap_append hlongest.gap_matches
  | @token start stop kind w text rest tokens _ _ _ ih =>
    have htoken := @Spaced.token start [] text
      ⟨kind, String.ofList w, ⟨start, start + utf8Length w⟩⟩ tokens .none (by simp [utf8Length])
      (ih hrest)
    simpa using htoken

end Munched

/-- What is wrong with the rest of a text: its longest piece is a string without an end, or
there is no piece. -/
def SyntaxError.Stops (e : SyntaxError) (rest : List Char) : Prop :=
  (e.code = .E1006 ∧ ∃ w, Longest (.token .unterminatedString) w rest) ∨
    (e.code = .E1007 ∧ Unmatched rest)

/-- A string without an end is no token. -/
theorem Lexeme.ends_of_scan {c : Char} {rest : List Char} {kind : TokenKind} {n : Nat}
    (h : Lexeme.scan c rest = (.token kind, n)) : kind ≠ .unterminatedString := by
  rintro rfl
  rcases Lexeme.scan_token h with hliteral | ⟨word, hword⟩ | ⟨hsign, -⟩
  · exact absurd hliteral (by decide)
  · rcases TokenKind.ofWord_cases word with hk | hk <;> rw [← hword] at hk <;> cases hk
  · rcases TokenKind.ofSign?_eq_some hsign with ⟨hk, -⟩ | hk <;> cases hk

/-- The lexer takes a text apart to its end, or up to where no token can be. -/
theorem munched_of_lexFrom (start : Nat) (text : List Char) :
    match lexFrom start text with
    | .ok tokens => Munched start text tokens (start + utf8Length text) []
    | .error e => ∃ tokens rest, Munched start text tokens e.span.start rest ∧ e.Stops rest := by
  have hparts (c : Char) (rest : List Char) (n : Nat) :
      c :: rest = c :: rest.take n ++ rest.drop n := by simp
  fun_induction lexFrom start text with
  | case1 start => exact .done start []
  | case2 start c rest n written span hscan ih =>
    have hlongest := longest_of_scan hscan rfl
    rw [hparts c rest n] at hlongest ⊢
    cases hmore : lexFrom span.stop (rest.drop n) with
    | ok tokens =>
      rw [hmore, Nat.add_assoc, ← utf8Length_append] at ih
      exact .gap hlongest ih
    | error e =>
      rw [hmore] at ih
      obtain ⟨tokens, rest', hmunched, hstops⟩ := ih
      exact ⟨tokens, rest', .gap hlongest hmunched, hstops⟩
  | case3 start c rest n written span kind hscan ih =>
    have hlongest := longest_of_scan hscan rfl
    have hends := Lexeme.ends_of_scan hscan
    rw [hparts c rest n] at hlongest ⊢
    cases hmore : lexFrom span.stop (rest.drop n) with
    | ok tokens =>
      rw [hmore, Nat.add_assoc, ← utf8Length_append] at ih
      exact .token hlongest hends ih
    | error e =>
      rw [hmore] at ih
      obtain ⟨tokens, rest', hmunched, hstops⟩ := ih
      exact ⟨_, rest', .token hlongest hends hmunched, hstops⟩
  | case4 start c rest n written span hscan =>
    exact ⟨[], c :: rest, .done _ _, .inl ⟨rfl, _, longest_of_scan hscan rfl⟩⟩
  | case5 start c rest n written span hscan =>
    exact ⟨[], c :: rest, .done _ _, .inr ⟨rfl, unmatched_of_scan hscan⟩⟩

/-- The tokens of a text are its longest pieces, and what separates them is blanks and comments;
or the first place where the longest piece is no token is reported. -/
theorem lex_takes_longest_pieces (source : String) :
    match lex source with
    | .ok tokens =>
      Munched 0 source.toList tokens (utf8Length source.toList) [] ∧
        Spaced 0 source.toList tokens ∧
        (∀ t ∈ tokens, t.StandsIn 0 source.toList ∧ t.span.start < t.span.stop) ∧
        tokens.Pairwise fun a b => a.span.stop ≤ b.span.start
    | .error e =>
      ∃ tokens before rest, source.toList = before ++ rest ∧
        Munched 0 source.toList tokens e.span.start rest ∧ e.span.start = utf8Length before ∧
        e.Stops rest := by
  have hmunched := munched_of_lexFrom 0 source.toList
  unfold lex
  cases hlex : lexFrom 0 source.toList with
  | ok tokens =>
    rw [hlex, Nat.zero_add] at hmunched
    have hlexes := (lexFrom_eq_ok.1 hlex).inOrder
    exact ⟨hmunched, hmunched.spaced,
      fun t ht => ⟨hmunched.standsIn t ht, (hlexes.1 t ht).2⟩, hlexes.2⟩
  | error e =>
    rw [hlex] at hmunched
    obtain ⟨tokens, rest, hmunched, hstops⟩ := hmunched
    obtain ⟨before, hbefore, hstart⟩ := hmunched.split
    exact ⟨tokens, before, rest, hbefore, hmunched, by rw [hstart, Nat.zero_add], hstops⟩

end IncrementalBuild
