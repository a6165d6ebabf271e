import IncrementalBuild.Proofs.Syntax.Lexing
import Mathlib.Data.List.TakeWhile

/-!
# Texts put together line by line

No token and no comment goes on after the end of a line, and blanks say nothing, so the tokens
of a text and those of a text on the lines after it are the tokens of both in one.
-/

set_option autoImplicit false

namespace IncrementalBuild

namespace Lexeme

variable {c : Char} {u : List Char}

/-- A run that a character does not go on ends before it. -/
theorem takeWhile_append_stop {p : Char → Bool} {d : Char} (hd : p d = false) (u v : List Char) :
    (u ++ d :: v).takeWhile p = u.takeWhile p := by
  rw [List.takeWhile_append, List.takeWhile_cons_of_neg (by simp [hd]), List.append_nil]
  split
  · rename_i hall
    exact ((List.takeWhile_prefix p).eq_of_length hall).symm
  · rfl

theorem quotedRun_newline (quote : Char) (n : Nat) (u v : List Char) :
    quotedRun quote n (u ++ '\n' :: v) = quotedRun quote n u := by
  fun_induction quotedRun quote n u with
  | case1 n => simp [quotedRun]
  | case2 n => simp [quotedRun]
  | case3 n c rest hc => simp [quotedRun, hc]
  | case4 n c rest hc ih => simpa only [List.cons_append, quotedRun, if_neg hc] using ih
  | case5 n c rest hslash hc => rw [List.cons_append, quotedRun.eq_4 _ _ _ _ hslash, if_pos hc]
  | case6 n c rest hslash hc ih =>
    rw [List.cons_append, quotedRun.eq_4 _ _ _ _ hslash, if_neg hc, ih]

theorem quoted_newline {quote : Char} (hquote : quote ≠ '\n') (closed cut : Lexeme)
    (u v : List Char) :
    quoted quote closed cut (u ++ '\n' :: v) = quoted quote closed cut u := by
  have hle := quotedRun_le quote 0 u
  rw [Nat.zero_add] at hle
  have hhead : (((u ++ '\n' :: v).drop (quotedRun quote 0 u)).head? == some quote) =
      ((u.drop (quotedRun quote 0 u)).head? == some quote) := by
    rw [List.drop_append_of_le_length hle]
    cases u.drop (quotedRun quote 0 u) with
    | nil => simpa using Ne.symm hquote
    | cons d ds => rfl
  rw [quoted, quoted, quotedRun_newline, hhead]

/-- What starts with no blank is not changed by what comes after the end of its line. -/
theorem scan_newline (hc : isGap c = false) (u v : List Char) :
    scan c (u ++ '\n' :: v) = scan c u := by
  have hhead {d : Char} (hd : d ≠ '\n') : ((u ++ '\n' :: v).head? == some d) =
      (u.head? == some d) := by
    cases u with
    | nil => simpa using Ne.symm hd
    | cons e u => rfl
  have hcomment : (u ++ '\n' :: v).takeWhile (· != '\n') = u.takeWhile (· != '\n') :=
    takeWhile_append_stop (by decide) u v
  have hword : (u ++ '\n' :: v).takeWhile continuesWord = u.takeWhile continuesWord :=
    takeWhile_append_stop (by decide) u v
  have hdecimal : (u ++ '\n' :: v).takeWhile continuesDecimal = u.takeWhile continuesDecimal :=
    takeWhile_append_stop (by decide) u v
  unfold scan
  rw [hc, hhead (by decide), hhead (by decide), hcomment, hword, hdecimal,
    quoted_newline (by decide), quoted_newline (by decide)]
  cases u with
  | nil => simp
  | cons d u =>
    have hhex : (u ++ '\n' :: v).takeWhile continuesHex = u.takeWhile continuesHex :=
      takeWhile_append_stop (by decide) u v
    simp only [List.cons_append, List.drop_one, List.tail_cons, hhex, Bool.false_eq_true, if_false]

/-- A piece that starts with a blank is a run of blanks, up to the first character that is
none. -/
theorem run_of_blank {lexeme : Lexeme} {written rest : List Char} (hc : isGap c = true)
    (h : scan c (written ++ rest) = (lexeme, written.length)) :
    lexeme = .gap ∧ (written ++ rest).takeWhile isGap = written := by
  rw [scan, if_pos hc] at h
  obtain ⟨hlexeme, hlength⟩ := Prod.mk.inj h
  refine ⟨hlexeme.symm, ?_⟩
  exact (List.prefix_of_prefix_length_le (List.takeWhile_prefix _) (List.prefix_append ..)
    hlength.le).eq_of_length hlength

end Lexeme

namespace Lexes

variable {o : Nat} {c : Char} {cs ws a b : List Char} {tokens ta tb : List Token}

/-- A blank before a text is no token. -/
theorem blank (hc : Lexeme.isGap c = true) (h : Lexes (o + utf8Length [c]) cs tokens) :
    Lexes o (c :: cs) tokens := by
  have halone (hcs : cs.takeWhile Lexeme.isGap = []) : Lexes o (c :: cs) tokens := by
    refine @Lexes.gap o c [] cs tokens ?_ h
    rw [List.nil_append, Lexeme.scan, if_pos hc, hcs]
  -- blanks that follow belong to one piece with it
  cases h with
  | nil => exact halone rfl
  | @gap _ d written rest _ hscan hrest =>
    by_cases hd : Lexeme.isGap d = true
    · have hrun := (Lexeme.run_of_blank hd hscan).2
      refine @Lexes.gap o c (d :: written) rest tokens ?_ ?_
      · rw [Lexeme.scan, if_pos hc, List.cons_append, List.takeWhile_cons_of_pos hd,
          hrun]
      · rw [Nat.add_assoc, ← utf8Length_append] at hrest
        exact hrest
    · exact halone (List.takeWhile_cons_of_neg hd)
  | @token _ d written rest kind _ hscan hrest =>
    refine halone (List.takeWhile_cons_of_neg fun hd => ?_)
    cases (Lexeme.run_of_blank hd hscan).1

theorem blanks (hws : ∀ c ∈ ws, Lexeme.isGap c = true) (h : Lexes (o + utf8Length ws) cs tokens) :
    Lexes o (ws ++ cs) tokens := by
  induction ws generalizing o with
  | nil => exact h
  | cons c ws ih =>
    obtain ⟨hc, hws⟩ := List.forall_mem_cons.1 hws
    refine blank hc (ih hws ?_)
    rw [Nat.add_assoc, ← utf8Length_append]
    exact h

/-- The tokens of a text and of one that starts on the line after it. -/
theorem join_lines (ha : Lexes o a ta) (hb : Lexes (o + utf8Length a + 1) b tb) :
    Lexes o (a ++ '\n' :: b) (ta ++ tb) := by
  induction ha with
  | nil => exact blank rfl hb
  | @gap o c written rest tokens hscan hrest ih =>
    rw [Nat.add_assoc o, ← utf8Length_append] at ih
    have hmore := ih hb
    cases hc : Lexeme.isGap c with
    | true =>
      have hrun := (Lexeme.run_of_blank hc hscan).2
      have hblanks : ∀ d ∈ c :: written, Lexeme.isGap d = true := by
        refine List.forall_mem_cons.2 ⟨hc, fun d hd => ?_⟩
        rw [← hrun] at hd
        exact List.mem_takeWhile_imp hd
      rw [List.cons_append, List.append_assoc]
      exact blanks hblanks hmore
    | false =>
      rw [List.cons_append, List.append_assoc]
      refine .gap ?_ hmore
      rw [← List.append_assoc, Lexeme.scan_newline hc, hscan]
  | @token o c written rest kind tokens hscan hrest ih =>
    rw [Nat.add_assoc o, ← utf8Length_append] at ih
    have hc : Lexeme.isGap c = false := by
      rw [Bool.eq_false_iff]
      intro hc
      cases (Lexeme.run_of_blank hc hscan).1
    rw [List.cons_append, List.append_assoc]
    refine .token ?_ (ih hb)
    rw [← List.append_assoc, Lexeme.scan_newline hc, hscan]

end Lexes

end IncrementalBuild
