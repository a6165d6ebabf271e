import IncrementalBuild.Syntax.Lexer

/-!
# The patterns of the language

What the pieces of a source text can look like, as regular patterns with the piece each of
them stands for. The longest piece at the head of a text is the longest prefix that any of
the patterns matches; of a word and a keyword of the same length it is the keyword. Nothing
here says how such a piece is found.
-/

set_option autoImplicit false

namespace IncrementalBuild

/-- A pattern of characters. -/
inductive Pattern where
  /-- A character in one of the ranges. -/
  | any (ranges : List (Char × Char))
  /-- A character that is none of these. -/
  | except (chars : List Char)
  /-- These characters. -/
  | text (s : String)
  | seq (p q : Pattern)
  | alt (p q : Pattern)
  /-- Any number of times, also none. -/
  | many (p : Pattern)
  deriving DecidableEq

namespace Pattern

/-- Whether a character is in one of some ranges. -/
def inRanges (ranges : List (Char × Char)) (c : Char) : Bool :=
  ranges.any fun r => r.1 ≤ c && c ≤ r.2

/-- At least once. -/
def atLeastOnce (p : Pattern) : Pattern := .seq p (.many p)

/-- One of these characters. -/
def oneOf (chars : String) : Pattern := .any (chars.toList.map fun c => (c, c))

/-- The words a pattern matches. -/
inductive Matches : Pattern → List Char → Prop where
  | any {ranges : List (Char × Char)} {c : Char} : inRanges ranges c = true → Matches (.any ranges) [c]
  | except {chars : List Char} {c : Char} : c ∉ chars → Matches (.except chars) [c]
  | text {s : String} : Matches (.text s) s.toList
  | seq {p q : Pattern} {u v : List Char} : Matches p u → Matches q v → Matches (.seq p q) (u ++ v)
  | left {p q : Pattern} {u : List Char} : Matches p u → Matches (.alt p q) u
  | right {p q : Pattern} {u : List Char} : Matches q u → Matches (.alt p q) u
  | none {p : Pattern} : Matches (.many p) []
  | more {p : Pattern} {u v : List Char} :
      Matches p u → Matches (.many p) v → Matches (.many p) (u ++ v)

section Matching

variable {p q : Pattern} {w : List Char}

theorem inRanges_singletons {chars : List Char} {c : Char} :
    inRanges (chars.map fun d => (d, d)) c = true ↔ c ∈ chars := by
  simp only [inRanges, List.any_map, List.any_eq_true, Function.comp, Bool.and_eq_true,
    decide_eq_true_eq]
  constructor
  · rintro ⟨d, hd, hle, hge⟩
    rwa [Char.le_antisymm hge hle]
  · exact fun h => ⟨c, h, Char.le_refl c, Char.le_refl c⟩

@[simp] theorem matches_any_iff {ranges : List (Char × Char)} :
    (any ranges).Matches w ↔ ∃ c, inRanges ranges c = true ∧ w = [c] := by
  constructor
  · rintro ⟨h⟩
    exact ⟨_, h, rfl⟩
  · rintro ⟨c, h, rfl⟩
    exact .any h

@[simp] theorem matches_except_iff {chars : List Char} :
    (except chars).Matches w ↔ ∃ c, c ∉ chars ∧ w = [c] := by
  constructor
  · rintro ⟨⟩
    exact ⟨_, ‹_›, rfl⟩
  · rintro ⟨c, h, rfl⟩
    exact .except h

@[simp] theorem matches_text_iff {s : String} : (text s).Matches w ↔ w = s.toList := by
  constructor
  · rintro ⟨⟩
    rfl
  · rintro rfl
    exact .text

@[simp] theorem matches_seq_iff :
    (seq p q).Matches w ↔ ∃ u v, p.Matches u ∧ q.Matches v ∧ w = u ++ v := by
  constructor
  · rintro ⟨⟩
    exact ⟨_, _, ‹_›, ‹_›, rfl⟩
  · rintro ⟨u, v, hu, hv, rfl⟩
    exact .seq hu hv

@[simp] theorem matches_alt_iff : (alt p q).Matches w ↔ p.Matches w ∨ q.Matches w := by
  constructor
  · rintro ⟨⟩
    · exact .inl ‹_›
    · exact .inr ‹_›
  · rintro (h | h)
    · exact .left h
    · exact .right h

/-- What repeats a pattern is nothing, or something the pattern matches before such a thing. -/
theorem Matches.many_induction {motive : List Char → Prop} (none : motive [])
    (more : ∀ u v, p.Matches u → (many p).Matches v → motive v → motive (u ++ v))
    (h : (many p).Matches w) : motive w := by
  generalize hq : many p = q at h
  induction h with
  | none => exact none
  | more hu hv _ ih =>
    cases hq
    exact more _ _ hu hv (ih rfl)
  | _ => cases hq

/-- Repeating a pattern of single characters takes any number of them. -/
theorem matches_many_iff {good : Char → Prop} (hp : ∀ u, p.Matches u ↔ ∃ c, good c ∧ u = [c]) :
    (many p).Matches w ↔ ∀ c ∈ w, good c := by
  constructor
  · intro h
    refine h.many_induction (motive := fun w => ∀ c ∈ w, good c) (by simp) fun u v hu _ ih => ?_
    obtain ⟨c, hc, rfl⟩ := (hp u).1 hu
    simpa using ⟨hc, ih⟩
  · intro h
    induction w with
    | nil => exact .none
    | cons c w ih =>
      rw [List.forall_mem_cons] at h
      exact .more ((hp [c]).2 ⟨c, h.1, rfl⟩) (ih h.2)

@[simp] theorem matches_many_any_iff {ranges : List (Char × Char)} :
    (many (any ranges)).Matches w ↔ ∀ c ∈ w, inRanges ranges c = true :=
  matches_many_iff fun _ => matches_any_iff

@[simp] theorem matches_many_except_iff {chars : List Char} :
    (many (except chars)).Matches w ↔ ∀ c ∈ w, c ∉ chars :=
  matches_many_iff fun _ => matches_except_iff

/-- A character of one class and any number of another. -/
theorem matches_head_iff {head tail : List (Char × Char)} :
    (seq (any head) (many (any tail))).Matches w ↔
      ∃ c u, inRanges head c = true ∧ (∀ d ∈ u, inRanges tail d = true) ∧ w = c :: u := by
  simp only [matches_seq_iff, matches_any_iff, matches_many_any_iff]
  constructor
  · rintro ⟨u, v, ⟨c, hc, rfl⟩, hv, rfl⟩
    exact ⟨c, v, hc, hv, rfl⟩
  · rintro ⟨c, u, hc, hu, rfl⟩
    exact ⟨[c], u, ⟨c, hc, rfl⟩, hu, rfl⟩

end Matching

/-- One step between the quotes of a literal: a character that is no quote, no backslash and
no end of a line, or a backslash together with any other character of its line. -/
def quotedStep (quote : Char) : Pattern :=
  .alt (.except [quote, '\\', '\n']) (.seq (.text "\\") (.except ['\n']))

/-- What stands between the quotes of a literal. -/
def quotedBody (quote : Char) : Pattern := .many (quotedStep quote)

theorem matches_quotedStep_iff {quote : Char} {w : List Char} :
    (quotedStep quote).Matches w ↔
      (∃ c, c ≠ quote ∧ c ≠ '\\' ∧ c ≠ '\n' ∧ w = [c]) ∨ ∃ c, c ≠ '\n' ∧ w = ['\\', c] := by
  simp only [quotedStep, matches_alt_iff, matches_seq_iff, matches_text_iff, matches_except_iff,
    List.mem_cons, List.not_mem_nil, or_false, not_or, and_assoc]
  refine or_congr_right ⟨?_, ?_⟩
  · rintro ⟨_, _, rfl, ⟨c, hc, rfl⟩, rfl⟩
    exact ⟨c, hc, by simp⟩
  · rintro ⟨c, hc, rfl⟩
    exact ⟨_, _, rfl, ⟨c, hc, rfl⟩, by simp⟩

/-- A whole literal in the given quotes. -/
def quoted (quote : Char) : Pattern :=
  .seq (.any [(quote, quote)]) (.seq (quotedBody quote) (.any [(quote, quote)]))

theorem matches_quote_iff {quote : Char} {w : List Char} :
    (any [(quote, quote)]).Matches w ↔ w = [quote] := by
  have hquote (c : Char) := @inRanges_singletons [quote] c
  simp only [List.map_cons, List.map_nil, List.mem_singleton] at hquote
  simp [hquote]

theorem matches_quoted_iff {quote : Char} {w : List Char} :
    (quoted quote).Matches w ↔
      ∃ u, (quotedBody quote).Matches u ∧ w = quote :: (u ++ [quote]) := by
  simp only [quoted, matches_seq_iff, matches_quote_iff]
  constructor
  · rintro ⟨_, _, rfl, ⟨u, _, hu, rfl, rfl⟩, rfl⟩
    exact ⟨u, hu, rfl⟩
  · rintro ⟨u, hu, rfl⟩
    exact ⟨_, _, rfl, ⟨u, _, hu, rfl, rfl⟩, rfl⟩

/-- A run of blanks, or a comment up to the end of its line. -/
def gap : Pattern := .alt (.atLeastOnce (oneOf " \t\r\n\x0c")) (.seq (.text "//") (.many (.except ['\n'])))

end Pattern

/-- What a piece of a text is. -/
inductive PieceKind where
  | gap
  | token (kind : TokenKind)
  deriving DecidableEq

open Pattern in
/-- The patterns of the pieces that can be spelled in more than one way, with what each of them
stands for. -/
def openPatterns : List (PieceKind × Pattern) :=
  [(.gap, Pattern.gap),
    (.token .identifier,
      .seq (.any [('A', 'Z'), ('a', 'z'), ('_', '_')])
        (.many (.any [('A', 'Z'), ('a', 'z'), ('0', '9'), ('_', '_')]))),
    (.token .integer, .seq (.any [('0', '9')]) (.many (.any [('0', '9'), ('_', '_')]))),
    (.token .integer,
      .seq (.text "0x") (.atLeastOnce (.any [('0', '9'), ('a', 'f'), ('A', 'F'), ('_', '_')]))),
    (.token .string, quoted '"'),
    (.token .unterminatedString, .seq (.text "\"") (quotedBody '"')),
    (.token .character, quoted '\''),
    (.token .operator, oneOf "+-/%&|^~!<>?@.#$")]

/-- The patterns of the language: the one spelling of each keyword and punctuation sign, and the
others. -/
def patterns : List (PieceKind × Pattern) :=
  (TokenKind.all.filterMap fun kind => kind.spelling?.map fun s => (.token kind, .text s)) ++
    openPatterns

/-- A word is the longest that any pattern matches at the head of a text, and stands for `kind`;
a token with one spelling goes before any other of the same length. -/
structure Longest (kind : PieceKind) (word text : List Char) : Prop where
  isPrefix : word <+: text
  matched : ∃ p, (kind, p) ∈ patterns ∧ p.Matches word
  longest : ∀ kind' p word', (kind', p) ∈ patterns → p.Matches word' → word' <+: text →
    word'.length ≤ word.length
  spelled : ∀ kind' s, (kind', Pattern.text s) ∈ patterns → s.toList = word → kind' = kind

/-- No pattern matches at the head of a text. -/
def Unmatched (text : List Char) : Prop :=
  ∀ kind p word, (kind, p) ∈ patterns → p.Matches word → ¬ word <+: text

/-- A text is taken apart into its longest pieces, one after another, up to some place: the
tokens that were found from `start` to `stop`, and what comes after. No unterminated string is
among the pieces. -/
inductive Munched : (start : Nat) → List Char → List Token → (stop : Nat) → List Char → Prop where
  | done (start : Nat) (rest : List Char) : Munched start rest [] start rest
  | gap {start stop : Nat} {word text rest : List Char} {tokens : List Token} :
      Longest .gap word (word ++ text) → Munched (start + utf8Length word) text tokens stop rest →
      Munched start (word ++ text) tokens stop rest
  | token {start stop : Nat} {kind : TokenKind} {word text rest : List Char}
      {tokens : List Token} :
      Longest (.token kind) word (word ++ text) → kind ≠ .unterminatedString →
      Munched (start + utf8Length word) text tokens stop rest →
      Munched start (word ++ text)
        (⟨kind, String.ofList word, ⟨start, start + utf8Length word⟩⟩ :: tokens) stop rest

/-- A text is what its tokens spell, with any number of blanks and comments before, between and
after them. -/
inductive Spaced : (start : Nat) → List Char → List Token → Prop where
  | last {start : Nat} {blank : List Char} : (Pattern.many .gap).Matches blank →
      Spaced start blank []
  | token {start : Nat} {blank rest : List Char} {t : Token} {tokens : List Token} :
      (Pattern.many .gap).Matches blank →
      t.span = ⟨start + utf8Length blank,
        start + utf8Length blank + utf8Length t.text.toList⟩ →
      Spaced t.span.stop rest tokens →
      Spaced start (blank ++ (t.text.toList ++ rest)) (t :: tokens)

end IncrementalBuild
