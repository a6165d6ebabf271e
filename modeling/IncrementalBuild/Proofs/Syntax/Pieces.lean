import IncrementalBuild.Proofs.Syntax.Patterns

/-!
# What the patterns match

The words that the patterns of the language match, told apart by how they start. The
characters of each class are those the lexer asks for, and a token has one spelling exactly if
it is a keyword or one of the signs.
-/

set_option autoImplicit false

namespace IncrementalBuild

section Classes

open Pattern Lexeme

variable {c : Char}

theorem isUpper_iff : c.isUpper = true ↔ 65 ≤ c.toNat ∧ c.toNat ≤ 90 := by
  show decide (c.val ≥ 'A'.val ∧ c.val ≤ 'Z'.val) = true ↔ _
  simp [UInt32.le_iff_toNat_le, ← Char.toNat_val]

theorem isLower_iff : c.isLower = true ↔ 97 ≤ c.toNat ∧ c.toNat ≤ 122 := by
  show (decide (c.val ≥ 'a'.val) && decide (c.val ≤ 'z'.val)) = true ↔ _
  simp [UInt32.le_iff_toNat_le, ← Char.toNat_val]

theorem isAlpha_eq : c.isAlpha = (c.isUpper || c.isLower) := rfl

theorem isDigit_iff : c.isDigit = true ↔ 48 ≤ c.toNat ∧ c.toNat ≤ 57 := by
  simp [Char.isDigit, UInt32.le_iff_toNat_le, ← Char.toNat_val]

theorem char_le_iff {a : Char} : a ≤ c ↔ a.toNat ≤ c.toNat := Iff.rfl

theorem eq_underscore_iff : c = '_' ↔ c.toNat = 95 := Char.toNat_inj.symm

theorem inRanges_startsWord :
    inRanges [('A', 'Z'), ('a', 'z'), ('_', '_')] c = true ↔ startsWord c = true := by
  simp [inRanges, startsWord, isAlpha_eq, isUpper_iff, isLower_iff, char_le_iff,
    eq_underscore_iff]
  omega

theorem inRanges_continuesWord :
    inRanges [('A', 'Z'), ('a', 'z'), ('0', '9'), ('_', '_')] c = true ↔
      continuesWord c = true := by
  simp [inRanges, continuesWord, Char.isAlphanum, isAlpha_eq, isUpper_iff, isLower_iff,
    isDigit_iff, char_le_iff, eq_underscore_iff]
  omega

theorem inRanges_isDigit : inRanges [('0', '9')] c = true ↔ c.isDigit = true := by
  simp [inRanges, isDigit_iff, char_le_iff]

theorem inRanges_continuesDecimal :
    inRanges [('0', '9'), ('_', '_')] c = true ↔ continuesDecimal c = true := by
  simp [inRanges, continuesDecimal, isDigit_iff, char_le_iff, eq_underscore_iff]
  omega

theorem inRanges_continuesHex :
    inRanges [('0', '9'), ('a', 'f'), ('A', 'F'), ('_', '_')] c = true ↔
      continuesHex c = true := by
  simp [inRanges, continuesHex, isHexDigit, isDigit_iff, char_le_iff, eq_underscore_iff]
  omega

theorem inRanges_isGap :
    inRanges (" \t\r\n\x0c".toList.map fun d => (d, d)) c = true ↔ isGap c = true := by
  rw [inRanges_singletons]
  simp [isGap, or_assoc]

end Classes

namespace TokenKind

/-- The signs that are all of one kind. -/
def operators : List Char :=
  ['+', '-', '/', '%', '&', '|', '^', '~', '!', '<', '>', '?', '@', '.', '#', '$']

theorem toList_operators : "+-/%&|^~!<>?@.#$".toList = operators := by simp [operators]

theorem ofSign?_operator {c : Char} (h : c ∈ operators) : ofSign? c = some .operator := by
  unfold ofSign?
  split
  case h_12 => rw [String.contains_char_eq, toList_operators, if_pos (decide_eq_true h)]
  all_goals exact absurd h (by decide)

/-- A sign that is a token by itself is an operator, or it is the one spelling of its kind. -/
theorem ofSign?_eq_some {c : Char} {kind : TokenKind} (h : ofSign? c = some kind) :
    (kind = .operator ∧ c ∈ operators) ∨ kind.spelling? = some (String.singleton c) := by
  unfold ofSign? at h
  split at h
  case h_12 =>
    split at h
    · rename_i hc
      cases h
      rw [String.contains_char_eq, toList_operators, decide_eq_true_eq] at hc
      exact .inl ⟨rfl, hc⟩
    · cases h
  all_goals
    cases h
    exact .inr rfl

/-- The kind of a word is that of all identifiers, or the word is its one spelling. -/
theorem ofWord_cases (word : String) :
    ofWord word = .identifier ∨ (ofWord word).spelling? = some word := by
  unfold ofWord
  split
  case h_10 => exact .inl rfl
  all_goals exact .inr rfl

/-- The one spelling of a kind is a keyword, or a sign that starts nothing longer. -/
theorem spelling_cases {kind : TokenKind} {s : String} (h : kind.spelling? = some s) :
    (∃ c u, s.toList = c :: u ∧ Lexeme.startsWord c = true ∧
      (∀ d ∈ u, Lexeme.continuesWord d = true) ∧ ofWord s = kind) ∨
    ∃ c, s.toList = [c] ∧ ofSign? c = some kind ∧ kind ≠ .operator := by
  cases kind <;> cases h <;>
    first
    | exact .inl ⟨_, _, rfl, by decide, List.all_eq_true.1 (by decide), rfl⟩
    | exact .inr ⟨_, rfl, rfl, by decide⟩

end TokenKind

open Lexeme Pattern

/-- What the words of the patterns look like. -/
inductive Piece : PieceKind → List Char → Prop where
  | blanks {c : Char} {u : List Char} : isGap c = true → (∀ d ∈ u, isGap d = true) →
      Piece .gap (c :: u)
  | comment {u : List Char} : (∀ d ∈ u, d ≠ '\n') → Piece .gap ('/' :: '/' :: u)
  | word {c : Char} {u : List Char} {kind : TokenKind} :
      startsWord c = true → (∀ d ∈ u, continuesWord d = true) →
      (kind = .identifier ∨ kind = .ofWord (String.ofList (c :: u))) →
      Piece (.token kind) (c :: u)
  | decimal {c : Char} {u : List Char} : c.isDigit = true →
      (∀ d ∈ u, continuesDecimal d = true) → Piece (.token .integer) (c :: u)
  | hexadecimal {c : Char} {u : List Char} : continuesHex c = true →
      (∀ d ∈ u, continuesHex d = true) → Piece (.token .integer) ('0' :: 'x' :: c :: u)
  | string {u : List Char} : (quotedBody '"').Matches u →
      Piece (.token .string) ('"' :: (u ++ ['"']))
  | unterminated {u : List Char} : (quotedBody '"').Matches u →
      Piece (.token .unterminatedString) ('"' :: u)
  | character {u : List Char} : (quotedBody '\'').Matches u →
      Piece (.token .character) ('\'' :: (u ++ ['\'']))
  | sign {c : Char} {kind : TokenKind} : TokenKind.ofSign? c = some kind →
      Piece (.token kind) [c]

section Patterns

variable {kind : PieceKind} {p : Pattern} {w : List Char}

theorem mem_patterns_iff : (kind, p) ∈ patterns ↔
    (∃ k s, kind = .token k ∧ k.spelling? = some s ∧ p = .text s) ∨
      (kind, p) ∈ openPatterns := by
  have hall (k : TokenKind) : k ∈ TokenKind.all := by cases k <;> decide
  simp only [patterns, List.mem_append, List.mem_filterMap, hall, true_and,
    Option.map_eq_some_iff, Prod.mk.injEq]
  constructor
  · rintro (⟨k, s, hs, rfl, rfl⟩ | h)
    · exact .inl ⟨k, s, rfl, hs, rfl⟩
    · exact .inr h
  · rintro (⟨k, s, rfl, hs, rfl⟩ | h)
    · exact .inl ⟨k, s, hs, rfl, rfl⟩
    · exact .inr h

/-- The patterns that are one word are the spellings. -/
theorem mem_patterns_text {s : String} : (kind, Pattern.text s) ∈ patterns ↔
    ∃ k, kind = .token k ∧ k.spelling? = some s := by
  have hopen : (kind, Pattern.text s) ∉ openPatterns := by
    simp [openPatterns, Pattern.gap, oneOf, Pattern.quoted]
  simp [mem_patterns_iff, hopen]

theorem piece_of_spelling {k : TokenKind} {s : String} (h : k.spelling? = some s) :
    Piece (.token k) s.toList := by
  rcases TokenKind.spelling_cases h with ⟨c, u, hs, hc, hu, hk⟩ | ⟨c, hs, hk, -⟩
  · rw [hs]
    exact .word hc hu (.inr (by rw [← hs, String.ofList_toList, hk]))
  · rw [hs]
    exact .sign hk

/-- What a pattern matches is one of the pieces. -/
theorem piece_of_matches (hp : (kind, p) ∈ patterns) (h : p.Matches w) : Piece kind w := by
  rcases mem_patterns_iff.1 hp with ⟨k, s, rfl, hs, rfl⟩ | hp
  · rw [matches_text_iff.1 h]
    exact piece_of_spelling hs
  simp only [openPatterns, List.mem_cons, Prod.mk.injEq, List.not_mem_nil, or_false] at hp
  rcases hp with ⟨rfl, rfl⟩ | ⟨rfl, rfl⟩ | ⟨rfl, rfl⟩ | ⟨rfl, rfl⟩ | ⟨rfl, rfl⟩ | ⟨rfl, rfl⟩ |
    ⟨rfl, rfl⟩ | ⟨rfl, rfl⟩
  · rcases matches_alt_iff.1 h with h | h
    · obtain ⟨c, u, hc, hu, rfl⟩ := matches_head_iff.1 h
      exact .blanks (inRanges_isGap.1 hc) fun d hd => inRanges_isGap.1 (hu d hd)
    · obtain ⟨u, hu, rfl⟩ : ∃ u, (∀ d ∈ u, ¬ d = '\n') ∧ w = '/' :: '/' :: u := by simpa using h
      exact .comment hu
  · obtain ⟨c, u, hc, hu, rfl⟩ := matches_head_iff.1 h
    exact .word (inRanges_startsWord.1 hc) (fun d hd => inRanges_continuesWord.1 (hu d hd))
      (.inl rfl)
  · obtain ⟨c, u, hc, hu, rfl⟩ := matches_head_iff.1 h
    exact .decimal (inRanges_isDigit.1 hc) fun d hd => inRanges_continuesDecimal.1 (hu d hd)
  · obtain ⟨_, v, hx, hv, rfl⟩ := matches_seq_iff.1 h
    obtain ⟨c, u, hc, hu, rfl⟩ := matches_head_iff.1 hv
    rw [matches_text_iff.1 hx]
    exact .hexadecimal (inRanges_continuesHex.1 hc) fun d hd => inRanges_continuesHex.1 (hu d hd)
  · obtain ⟨u, hu, rfl⟩ := matches_quoted_iff.1 h
    exact .string hu
  · obtain ⟨u, hu, rfl⟩ : ∃ u, (quotedBody '"').Matches u ∧ w = '"' :: u := by simpa using h
    exact .unterminated hu
  · obtain ⟨u, hu, rfl⟩ := matches_quoted_iff.1 h
    exact .character hu
  · obtain ⟨c, hc, rfl⟩ := matches_any_iff.1 h
    exact .sign (TokenKind.ofSign?_operator (TokenKind.toList_operators ▸ inRanges_singletons.1 hc))

/-- Each piece is matched by a pattern of its kind. -/
theorem Piece.matched (h : Piece kind w) : ∃ p, (kind, p) ∈ patterns ∧ p.Matches w := by
  have hopen (i : Nat) {p : Pattern} (hi : openPatterns[i]? = some (kind, p)) :
      (kind, p) ∈ patterns :=
    mem_patterns_iff.2 (.inr (List.mem_of_getElem? hi))
  have hspelling {k : TokenKind} {s : String} (hk : k.spelling? = some s) :
      ∃ p, (PieceKind.token k, p) ∈ patterns ∧ p.Matches s.toList :=
    ⟨.text s, mem_patterns_text.2 ⟨k, rfl, hk⟩, .text⟩
  have hidentifier {c : Char} {u : List Char} (hc : startsWord c = true)
      (hu : ∀ d ∈ u, continuesWord d = true) :
      ∃ p, (PieceKind.token .identifier, p) ∈ patterns ∧ p.Matches (c :: u) :=
    ⟨_, mem_patterns_iff.2 (.inr (List.mem_of_getElem? (i := 1) rfl)), matches_head_iff.2
      ⟨c, u, inRanges_startsWord.2 hc, fun d hd => inRanges_continuesWord.2 (hu d hd), rfl⟩⟩
  cases h with
  | @blanks c u hc hu =>
    exact ⟨_, hopen 0 rfl, .left (matches_head_iff.2
      ⟨c, u, inRanges_isGap.2 hc, fun d hd => inRanges_isGap.2 (hu d hd), rfl⟩)⟩
  | comment hu => exact ⟨_, hopen 0 rfl, .right (by simpa using hu)⟩
  | @word c u k hc hu hk =>
    rcases hk with rfl | rfl
    · exact hidentifier hc hu
    rcases TokenKind.ofWord_cases (String.ofList (c :: u)) with hk | hk
    · rw [hk]
      exact hidentifier hc hu
    · simpa using hspelling hk
  | @decimal c u hc hu =>
    exact ⟨_, hopen 2 rfl, matches_head_iff.2
      ⟨c, u, inRanges_isDigit.2 hc, fun d hd => inRanges_continuesDecimal.2 (hu d hd), rfl⟩⟩
  | @hexadecimal c u hc hu =>
    exact ⟨_, hopen 3 rfl, matches_seq_iff.2 ⟨['0', 'x'], _, .text, matches_head_iff.2
      ⟨c, u, inRanges_continuesHex.2 hc, fun d hd => inRanges_continuesHex.2 (hu d hd), rfl⟩,
      rfl⟩⟩
  | string hu => exact ⟨_, hopen 4 rfl, matches_quoted_iff.2 ⟨_, hu, rfl⟩⟩
  | unterminated hu => exact ⟨_, hopen 5 rfl, by simpa using hu⟩
  | character hu => exact ⟨_, hopen 6 rfl, matches_quoted_iff.2 ⟨_, hu, rfl⟩⟩
  | @sign c k hk =>
    rcases TokenKind.ofSign?_eq_some hk with ⟨rfl, hc⟩ | hk
    · exact ⟨_, hopen 7 rfl, matches_any_iff.2
        ⟨c, inRanges_singletons.2 (TokenKind.toList_operators.symm ▸ hc), rfl⟩⟩
    · simpa using hspelling hk

end Patterns

end IncrementalBuild
