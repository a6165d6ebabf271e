import IncrementalBuild.Proofs.Syntax.Lexing
import IncrementalBuild.Proofs.Syntax.Pieces
import Mathlib.Data.List.TakeWhile

/-!
# What the lexer finds at the head of a text

The lexer looks at the first character of a text, and sometimes at the second, and takes a run
of characters of one class after it. What it finds so is a piece of the language, no pattern
matches anything longer there, and where it finds nothing no pattern matches at all.
-/

set_option autoImplicit false

namespace IncrementalBuild

open Pattern

namespace Lexeme

variable {c quote : Char} {rest u v : List Char}

/-- What a lexeme is, if it is a piece of the language. -/
def kind? : Lexeme → Option PieceKind
  | .gap => some .gap
  | .token kind => some (.token kind)
  | .unterminated => some (.token .unterminatedString)
  | .invalid => none

section Runs

variable {p : Char → Bool}

theorem take_length_takeWhile : rest.take (rest.takeWhile p).length = rest.takeWhile p :=
  (List.prefix_iff_eq_take.1 (List.takeWhile_prefix p)).symm

/-- A run reaches at least as far as any prefix of its characters. -/
theorem length_le_takeWhile (h : u <+: rest) (hu : ∀ d ∈ u, p d = true) :
    u.length ≤ (rest.takeWhile p).length := by
  obtain ⟨v, rfl⟩ := h
  rw [List.takeWhile_append_of_pos hu, List.length_append]
  exact Nat.le_add_right _ _

/-- What can be between the quotes of a literal, the run goes through. -/
theorem quotedRun_body (h : (quotedBody quote).Matches u) (n : Nat) :
    quotedRun quote n (u ++ v) = quotedRun quote (n + u.length) v := by
  revert n
  refine h.many_induction (motive := fun u => ∀ n,
    quotedRun quote n (u ++ v) = quotedRun quote (n + u.length) v) (fun n => rfl)
    fun x y hx _ ih n => ?_
  rcases matches_quotedStep_iff.1 hx with ⟨c, hquote, hslash, hline, rfl⟩ | ⟨c, hline, rfl⟩
  · rw [List.append_assoc, List.singleton_append, quotedRun.eq_4 _ _ _ _ hslash,
      if_neg (by simp [hquote, hline]), ih, List.length_append, List.length_singleton,
      Nat.add_assoc]
  · rw [List.append_assoc, List.cons_append, List.singleton_append, quotedRun,
      if_neg (by simpa using hline), ih, List.length_append, Nat.add_assoc]
    rfl

/-- What the run goes through can be between the quotes of a literal. -/
theorem body_quotedRun (n : Nat) (cs : List Char) :
    (quotedBody quote).Matches (cs.take (quotedRun quote n cs - n)) := by
  fun_induction quotedRun quote n cs with
  | case4 n c rest hline ih =>
    have hstep : (quotedStep quote).Matches ['\\', c] :=
      matches_quotedStep_iff.2 (.inr ⟨c, by simpa using hline, rfl⟩)
    obtain ⟨k, hk⟩ := Nat.exists_eq_add_of_le (le_quotedRun quote (n + 2) rest)
    rw [hk, Nat.add_sub_cancel_left] at ih
    rw [hk, show n + 2 + k - n = k + 2 by omega]
    exact .more hstep ih
  | case6 n c rest hslash hc ih =>
    obtain ⟨hquote, hline⟩ : c ≠ quote ∧ c ≠ '\n' := by simpa using hc
    have hstep : (quotedStep quote).Matches [c] :=
      matches_quotedStep_iff.2 (.inl ⟨c, hquote, hslash, hline, rfl⟩)
    obtain ⟨k, hk⟩ := Nat.exists_eq_add_of_le (le_quotedRun quote (n + 1) rest)
    rw [hk, Nat.add_sub_cancel_left] at ih
    rw [hk, show n + 1 + k - n = k + 1 by omega]
    exact .more hstep ih
  | _ =>
    rw [Nat.sub_self]
    exact .none

end Runs

section Heads

/-- A character that starts no blank, word or literal. -/
theorem classes_of_sign {kind : TokenKind} (h : TokenKind.ofSign? c = some kind) :
    isGap c = false ∧ startsWord c = false ∧ c.isDigit = false ∧ c ≠ '"' ∧ c ≠ '\'' := by
  unfold TokenKind.ofSign? at h
  split at h
  case h_12 =>
    split at h
    · rename_i hc
      rw [String.contains_char_eq, TokenKind.toList_operators, decide_eq_true_eq] at hc
      have hall : (TokenKind.operators.all fun d =>
          !isGap d && !startsWord d && !d.isDigit && d != '"' && d != '\'') = true := by decide
      simpa [and_assoc] using List.all_eq_true.1 hall c hc
    · cases h
  all_goals decide

theorem scan_gap (hc : isGap c = true) : scan c rest = (gap, (rest.takeWhile isGap).length) := by
  rw [scan, if_pos hc]

theorem scan_comment :
    scan '/' ('/' :: rest) = (gap, (rest.takeWhile (· != '\n')).length + 1) := by
  rfl

/-- No blank and no slash goes on a word. -/
theorem isGap_of_continuesWord (hc : continuesWord c = true) : isGap c = false ∧ c ≠ '/' := by
  have hall : ([' ', '\t', '\r', '\n', '\x0c', '/'].all (!continuesWord ·)) = true := by decide
  have hne (d : Char) (hd : d ∈ [' ', '\t', '\r', '\n', '\x0c', '/']) : c ≠ d := by
    rintro rfl
    have hnot := List.all_eq_true.1 hall c hd
    rw [hc] at hnot
    cases hnot
  simpa [isGap, and_assoc] using hne

theorem continuesWord_of_startsWord (hc : startsWord c = true) : continuesWord c = true := by
  simp only [startsWord, continuesWord, Char.isAlphanum, Bool.or_eq_true] at hc ⊢
  exact hc.imp_left .inl

theorem scan_word (hc : startsWord c = true) :
    scan c rest = (token (.ofWord (String.ofList (c :: rest.takeWhile continuesWord))),
      (rest.takeWhile continuesWord).length) := by
  obtain ⟨hgap, hslash⟩ := isGap_of_continuesWord (continuesWord_of_startsWord hc)
  simp [scan, hgap, hslash, hc]

theorem continuesWord_of_isDigit (hc : c.isDigit = true) :
    continuesWord c = true ∧ startsWord c = false := by
  refine ⟨by simp [continuesWord, Char.isAlphanum, hc], ?_⟩
  rw [isDigit_iff] at hc
  rw [Bool.eq_false_iff]
  simp only [startsWord, isAlpha_eq, ne_eq, Bool.or_eq_true, isUpper_iff, isLower_iff,
    beq_iff_eq, eq_underscore_iff]
  omega

theorem scan_digit (hc : c.isDigit = true) :
    scan c rest =
      if c = '0' ∧ rest.head? = some 'x' ∧ (rest.drop 1).takeWhile continuesHex ≠ [] then
        (token .integer, ((rest.drop 1).takeWhile continuesHex).length + 1)
      else (token .integer, (rest.takeWhile continuesDecimal).length) := by
  obtain ⟨hword, hstart⟩ := continuesWord_of_isDigit hc
  obtain ⟨hgap, hslash⟩ := isGap_of_continuesWord hword
  simp [scan, hgap, hslash, hstart, hc, and_assoc]

theorem scan_string : scan '"' rest = quoted '"' (token .string) unterminated rest := rfl

theorem scan_character : scan '\'' rest = quoted '\'' (token .character) invalid rest := rfl

theorem scan_sign {kind : TokenKind} (h : TokenKind.ofSign? c = some kind) :
    scan c rest = (token kind, 0) ∨ c = '/' ∧ rest.head? = some '/' := by
  obtain ⟨hgap, hstart, hdigit, hstring, hcharacter⟩ := classes_of_sign h
  by_cases hslash : c = '/' ∧ rest.head? = some '/'
  · exact .inr hslash
  · exact .inl (by simp [scan, hgap, hstart, hdigit, hstring, hcharacter, hslash, h])

end Heads

/-- A literal ends where its run does, at its quote or before it. -/
theorem quoted_spec (quote : Char) (closed cut : Lexeme) (rest : List Char) :
    ∃ u v, (quotedBody quote).Matches u ∧ rest = u ++ v ∧
      (quoted quote closed cut rest = (cut, u.length) ∨
        ∃ v', v = quote :: v' ∧ quoted quote closed cut rest = (closed, u.length + 1)) := by
  have hbody := @body_quotedRun quote 0 rest
  rw [Nat.sub_zero] at hbody
  have hlen := List.length_take_of_le ((quotedRun_le quote 0 rest).trans_eq (Nat.zero_add _))
  refine ⟨_, _, hbody, (List.take_append_drop _ _).symm, ?_⟩
  rw [hlen, quoted]
  split
  · rename_i hquote
    obtain ⟨v', hv'⟩ := List.head?_eq_some_iff.1 (eq_of_beq hquote)
    exact .inr ⟨v', hv', rfl⟩
  · exact .inl rfl

/-- A literal reaches at least as far as anything that can be between its quotes. -/
theorem length_le_quoted {closed cut : Lexeme} (hu : (quotedBody quote).Matches u)
    (h : u <+: rest) : u.length ≤ (quoted quote closed cut rest).2 := by
  obtain ⟨v, rfl⟩ := h
  have hle := le_quotedRun quote (0 + u.length) v
  rw [quoted, quotedRun_body hu]
  split <;> omega

/-- A literal that ends in its quote is found whole. -/
theorem quoted_closed {closed cut : Lexeme} (hu : (quotedBody quote).Matches u)
    (hquote : quote ≠ '\\') :
    quoted quote closed cut (u ++ quote :: v) = (closed, u.length + 1) := by
  have hrun : quotedRun quote 0 (u ++ quote :: v) = u.length := by
    rw [quotedRun_body hu, quotedRun.eq_4 _ _ _ _ hquote, if_pos (by simp), Nat.zero_add]
  rw [quoted, hrun]
  simp

/-- What is found at the head of a text is a piece of the kind it says. -/
theorem piece_of_scan {lexeme : Lexeme} {n : Nat} {kind : PieceKind}
    (h : scan c rest = (lexeme, n)) (hkind : lexeme.kind? = some kind) :
    Piece kind (c :: rest.take n) := by
  unfold scan at h
  split at h
  · rename_i hgap
    cases h
    cases hkind
    rw [take_length_takeWhile]
    exact .blanks hgap fun d hd => List.mem_takeWhile_imp hd
  split at h
  · rename_i hslash
    obtain ⟨rfl, hhead⟩ : c = '/' ∧ rest.head? = some '/' := by simpa using hslash
    obtain ⟨rest, rfl⟩ := List.head?_eq_some_iff.1 hhead
    cases h
    cases hkind
    rw [take_length_takeWhile, List.takeWhile_cons_of_pos (by decide)]
    exact .comment fun d hd => by simpa using List.mem_takeWhile_imp hd
  split at h
  · rename_i hword
    cases h
    cases hkind
    rw [take_length_takeWhile]
    exact .word hword (fun d hd => List.mem_takeWhile_imp hd) (.inr rfl)
  split at h
  · rename_i hdigit
    dsimp only at h
    split at h
    · rename_i hhex
      obtain ⟨⟨rfl, hx⟩, hne⟩ : (c = '0' ∧ rest.head? = some 'x') ∧
          (rest.drop 1).takeWhile continuesHex ≠ [] := by simpa using hhex
      obtain ⟨rest, rfl⟩ := List.head?_eq_some_iff.1 hx
      rw [List.drop_one, List.tail_cons] at h hne
      obtain ⟨d, u, hu⟩ := List.exists_cons_of_ne_nil hne
      have hall : ∀ d ∈ rest.takeWhile continuesHex, continuesHex d = true :=
        fun d hd => List.mem_takeWhile_imp hd
      cases h
      cases hkind
      rw [List.take_succ_cons, take_length_takeWhile, hu]
      rw [hu, List.forall_mem_cons] at hall
      exact .hexadecimal hall.1 hall.2
    · cases h
      cases hkind
      rw [take_length_takeWhile]
      exact .decimal hdigit fun d hd => List.mem_takeWhile_imp hd
  split at h
  · rename_i hquote
    obtain rfl := eq_of_beq hquote
    obtain ⟨u, v, hu, rfl, hcut | ⟨v', rfl, hclosed⟩⟩ :=
      quoted_spec '"' (token .string) unterminated rest
    · cases hcut.symm.trans h
      cases hkind
      rw [List.take_left]
      exact .unterminated hu
    · cases hclosed.symm.trans h
      cases hkind
      rw [List.take_length_add_append]
      exact .string hu
  split at h
  · rename_i hquote
    obtain rfl := eq_of_beq hquote
    obtain ⟨u, v, hu, rfl, hcut | ⟨v', rfl, hclosed⟩⟩ :=
      quoted_spec '\'' (token .character) invalid rest
    · cases hcut.symm.trans h
      cases hkind
    · cases hclosed.symm.trans h
      cases hkind
      rw [List.take_length_add_append]
      exact .character hu
  · split at h
    · rename_i hsign
      cases h
      cases hkind
      exact .sign hsign
    · cases h
      cases hkind

/-- Where a piece is, one is found that is at least as long. -/
theorem le_scan_of_piece {kind : PieceKind} {w : List Char} (h : Piece kind w)
    (hw : w <+: c :: rest) :
    (scan c rest).1.kind? ≠ none ∧ w.length ≤ (scan c rest).2 + 1 := by
  cases h with
  | blanks hc hu =>
    obtain ⟨rfl, hu'⟩ := List.cons_prefix_cons.1 hw
    rw [scan_gap hc]
    exact ⟨by simp [kind?], Nat.succ_le_succ (length_le_takeWhile hu' hu)⟩
  | comment hu =>
    obtain ⟨rfl, hw'⟩ := List.cons_prefix_cons.1 hw
    obtain ⟨rest, rfl, hu'⟩ := List.cons_prefix_iff.1 hw'
    rw [scan_comment]
    exact ⟨by simp [kind?], Nat.add_le_add_right
      (length_le_takeWhile hu' fun d hd => by simpa using hu d hd) 2⟩
  | word hc hu _ =>
    obtain ⟨rfl, hu'⟩ := List.cons_prefix_cons.1 hw
    rw [scan_word hc]
    exact ⟨by simp [kind?], Nat.succ_le_succ (length_le_takeWhile hu' hu)⟩
  | @decimal d u hc hu =>
    obtain ⟨rfl, hu'⟩ := List.cons_prefix_cons.1 hw
    rw [scan_digit hc]
    split
    · -- a decimal literal ends before the `x`
      rename_i hhex
      obtain ⟨rest, rfl⟩ := List.head?_eq_some_iff.1 hhex.2.1
      refine ⟨by simp [kind?], ?_⟩
      cases u with
      | nil => exact Nat.le_add_left _ _
      | cons d u =>
        obtain ⟨rfl, -⟩ := List.cons_prefix_cons.1 hu'
        exact absurd (hu 'x' List.mem_cons_self) (by decide)
    · exact ⟨by simp [kind?], Nat.succ_le_succ (length_le_takeWhile hu' hu)⟩
  | @hexadecimal d u hd hu =>
    obtain ⟨rfl, hw'⟩ := List.cons_prefix_cons.1 hw
    obtain ⟨rest, rfl, hu'⟩ := List.cons_prefix_iff.1 hw'
    have hle := length_le_takeWhile hu' (List.forall_mem_cons.2 ⟨hd, hu⟩)
    have hne : rest.takeWhile continuesHex ≠ [] :=
      List.ne_nil_of_length_pos (Nat.lt_of_lt_of_le (Nat.succ_pos _) hle)
    rw [scan_digit (by decide), if_pos ⟨rfl, rfl, hne⟩]
    exact ⟨by simp [kind?], Nat.add_le_add_right hle 2⟩
  | @string u hu =>
    obtain ⟨rfl, v, rfl⟩ := List.cons_prefix_cons.1 hw
    rw [scan_string, List.append_assoc, List.singleton_append, quoted_closed hu (by decide)]
    exact ⟨by simp [kind?], by simp⟩
  | unterminated hu =>
    obtain ⟨rfl, hu'⟩ := List.cons_prefix_cons.1 hw
    rw [scan_string]
    refine ⟨?_, Nat.succ_le_succ (length_le_quoted hu hu')⟩
    obtain ⟨u, v, _, rfl, h | ⟨v', rfl, h⟩⟩ := quoted_spec '"' (token .string) unterminated rest
    · simp [h, kind?]
    · simp [h, kind?]
  | character hu =>
    obtain ⟨rfl, v, rfl⟩ := List.cons_prefix_cons.1 hw
    rw [scan_character, List.append_assoc, List.singleton_append, quoted_closed hu (by decide)]
    exact ⟨by simp [kind?], by simp⟩
  | sign hsign =>
    obtain ⟨rfl, -⟩ := List.cons_prefix_cons.1 hw
    refine ⟨?_, Nat.le_add_left _ _⟩
    rcases scan_sign hsign with h | ⟨rfl, hslash⟩
    · rw [h]
      simp [kind?]
    · obtain ⟨rest, rfl⟩ := List.head?_eq_some_iff.1 hslash
      rw [scan_comment]
      simp [kind?]

/-- If what is found is how a kind is spelled, it is found as one of that kind. -/
theorem kind_of_spelling {lexeme : Lexeme} {n : Nat} {kind : TokenKind} {s : String}
    (h : scan c rest = (lexeme, n)) (hs : kind.spelling? = some s)
    (hword : s.toList = c :: rest.take n) : lexeme = token kind := by
  rcases TokenKind.spelling_cases hs with ⟨d, u, hdu, hd, hu, hk⟩ | ⟨d, hd, hk, hne⟩
  · obtain ⟨rfl, rfl⟩ := List.cons.inj (hdu.symm.trans hword)
    rw [scan_word hd] at h
    cases h
    rw [take_length_takeWhile] at hword
    rw [← hword, String.ofList_toList, hk]
  · obtain ⟨rfl, -⟩ := List.cons.inj (hd.symm.trans hword)
    rcases scan_sign hk with hscan | ⟨rfl, -⟩
    · cases hscan.symm.trans h
      rfl
    · exact absurd (Option.some.inj (hk.symm.trans (TokenKind.ofSign?_operator (by decide)))) hne

end Lexeme

/-- What is found at the head of a text is the longest piece there. -/
theorem longest_of_scan {c : Char} {rest : List Char} {lexeme : Lexeme} {n : Nat}
    {kind : PieceKind} (h : Lexeme.scan c rest = (lexeme, n)) (hkind : lexeme.kind? = some kind) :
    Longest kind (c :: rest.take n) (c :: rest) where
  isPrefix := List.cons_prefix_cons.2 ⟨rfl, List.take_prefix _ _⟩
  matched := (Lexeme.piece_of_scan h hkind).matched
  longest kind' p w' hp hw' hprefix := by
    have hle := (Lexeme.le_scan_of_piece (piece_of_matches hp hw') hprefix).2
    rw [h] at hle
    rwa [List.length_cons, Lexeme.length_take_of_scan h]
  spelled kind' s hp hs := by
    obtain ⟨k, rfl, hk⟩ := mem_patterns_text.1 hp
    rw [Lexeme.kind_of_spelling h hk hs] at hkind
    exact Option.some.inj hkind

/-- Where nothing is found, no pattern matches. -/
theorem unmatched_of_scan {c : Char} {rest : List Char} {n : Nat}
    (h : Lexeme.scan c rest = (.invalid, n)) : Unmatched (c :: rest) := by
  intro kind p w hp hw hprefix
  refine (Lexeme.le_scan_of_piece (piece_of_matches hp hw) hprefix).1 ?_
  rw [h]
  rfl

end IncrementalBuild
