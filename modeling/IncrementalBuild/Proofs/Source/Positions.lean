import IncrementalBuild.Source.Text
import Mathlib.Data.Prod.Lex
import Mathlib.Order.Lattice.Nat

/-!
# Positions in the order of offsets

Reading one more unit of a text leads to the next column, or to the first column of the next line
if the unit ends the line (`Position.counting`). So a later offset has a later position, and a
position tells its offset: the line tells where to start, the column how far to go from there.

All this holds whatever ends a line. The positions of a source text are the case where the units are
bytes and newlines end the lines.

## Main results

* `Position.strictMono_counting`: positions are ordered as offsets are.
* `Position.counting_eq_iff`: which offset a position stands for.
-/

set_option autoImplicit false

namespace IncrementalBuild

namespace Position

/-! ## Counting lines by where they end -/

/-- The position of an offset, where a line ends with each unit that `ends` marks. -/
def counting (ends : Nat → Bool) : Nat → Position
  | 0 => first
  | n + 1 =>
    let before := counting ends n
    if ends n then ⟨before.line + 1, 1⟩ else ⟨before.line, before.column + 1⟩

/-- The key positions are ordered by: the line, and on one line the column. -/
def key (p : Position) : Nat ×ₗ Nat := toLex (p.line, p.column)

variable {ends : Nat → Bool} {m n i : Nat}

theorem key_lt_counting_succ (ends : Nat → Bool) (n : Nat) :
    (counting ends n).key < (counting ends (n + 1)).key := by
  rw [key, key, Prod.Lex.toLex_lt_toLex, counting]
  cases ends n
  · exact .inr ⟨rfl, Nat.lt_succ_self _⟩
  · exact .inl (Nat.lt_succ_self _)

/-- A later offset has a later position. -/
theorem strictMono_counting (ends : Nat → Bool) : StrictMono fun n => (counting ends n).key :=
  strictMono_nat_of_lt_succ (key_lt_counting_succ ends)

/-! ## Where lines start -/

/-- The offsets up to `n` at which a line starts: the first line at zero, each other one after the
unit that ends the line before it. -/
def starts (ends : Nat → Bool) (n : Nat) : List Nat :=
  0 :: ((List.range n).filter ends).map (· + 1)

theorem starts_succ (ends : Nat → Bool) (n : Nat) :
    starts ends (n + 1) = starts ends n ++ if ends n then [n + 1] else [] := by
  cases hends : ends n <;> simp [starts, List.range_succ, hends]

theorem le_of_mem_starts (h : i ∈ starts ends n) : i ≤ n := by
  rcases List.mem_cons.1 h with rfl | h
  · exact Nat.zero_le n
  · obtain ⟨j, hj, rfl⟩ := List.mem_map.1 h
    exact List.mem_range.1 (List.mem_filter.1 hj).1

theorem pairwise_starts (ends : Nat → Bool) (n : Nat) : (starts ends n).Pairwise (· < ·) := by
  refine List.pairwise_cons.2 ⟨fun i hi => ?_, ?_⟩
  · obtain ⟨j, -, rfl⟩ := List.mem_map.1 hi
    exact Nat.succ_pos j
  · exact List.pairwise_map.2 ((List.pairwise_lt_range.filter ends).imp Nat.succ_lt_succ)

/-- The lines that start up to an offset come before those that start later. -/
theorem exists_later (h : n ≤ m) :
    ∃ later, starts ends m = starts ends n ++ later ∧ ∀ i ∈ later, n < i := by
  induction m, h using Nat.le_induction with
  | base => exact ⟨[], by simp, by simp⟩
  | succ m hm ih =>
    obtain ⟨later, heq, hlater⟩ := ih
    refine ⟨later ++ if ends m then [m + 1] else [], ?_, fun i hi => ?_⟩
    · rw [starts_succ, heq, List.append_assoc]
    · rcases List.mem_append.1 hi with hi | hi
      · exact hlater i hi
      · split at hi
        · rw [List.mem_singleton.1 hi]
          exact Nat.lt_succ_of_le hm
        · cases hi

theorem takeWhile_starts (h : n ≤ m) :
    (starts ends m).takeWhile (· ≤ n) = starts ends n := by
  obtain ⟨later, heq, hlater⟩ := @exists_later ends m n h
  have hnone : later.takeWhile (· ≤ n) = [] := by
    cases later with
    | nil => rfl
    | cons i later =>
      have hi := hlater i (List.mem_cons_self ..)
      exact List.takeWhile_cons_of_neg (by simpa using hi)
  rw [heq, List.takeWhile_append_of_pos fun i hi => decide_eq_true (le_of_mem_starts hi), hnone,
    List.append_nil]

/-- The line of an offset is the number of lines that start up to it. -/
theorem length_starts : (starts ends n).length = (counting ends n).line := by
  induction n with
  | zero => rfl
  | succ n ih => cases hends : ends n <;> simp [starts_succ, counting, hends, ih]

/-- The column of an offset counts from the last line that starts up to it. -/
theorem getLast?_starts (ends : Nat → Bool) (n : Nat) :
    ∃ start, (starts ends n).getLast? = some start ∧ n + 1 = start + (counting ends n).column := by
  induction n with
  | zero => exact ⟨0, rfl, rfl⟩
  | succ n ih =>
    obtain ⟨start, hlast, hn⟩ := ih
    cases hends : ends n
    · refine ⟨start, by simpa [starts_succ, hends] using hlast, ?_⟩
      simp only [counting, hends, Bool.false_eq_true, if_false]
      omega
    · exact ⟨n + 1, by simp [starts_succ, hends], by simp [counting, hends]⟩

/-! ## The offset of a position -/

/-- A position stands for an offset if the offset is as far from the start of the line as the column
says, and the next line, if there is one, starts later. -/
structure StandsFor (p : Position) (starts : List Nat) (n : Nat) : Prop where
  line_pos : 0 < p.line
  column_pos : 0 < p.column
  start : ∃ start, starts[p.line - 1]? = some start ∧ n = start + (p.column - 1)
  next : ∀ next, starts[p.line]? = some next → n < next

section

variable {starts : List Nat} {p q : Position}

theorem StandsFor.line_le (hsorted : starts.Pairwise (· < ·)) (hp : p.StandsFor starts n)
    (hq : q.StandsFor starts n) : q.line ≤ p.line := by
  by_contra hlt
  obtain ⟨start, hstart, hn⟩ := hq.start
  obtain ⟨hlength, rfl⟩ := List.getElem?_eq_some_iff.1 hstart
  -- the line after that of `p` starts past the offset, so the later line of `q` does too
  have hline : p.line < starts.length := by omega
  have hnext := hp.next _ (List.getElem?_eq_getElem hline)
  have hle : starts[p.line] ≤ starts[q.line - 1] := by
    rcases Nat.eq_or_lt_of_le (show p.line ≤ q.line - 1 by omega) with heq | hlt
    · simp only [heq, le_refl]
    · exact (List.pairwise_iff_getElem.1 hsorted _ _ _ _ hlt).le
  omega

/-- No two positions stand for one offset. -/
theorem StandsFor.unique (hsorted : starts.Pairwise (· < ·)) (hp : p.StandsFor starts n)
    (hq : q.StandsFor starts n) : p = q := by
  have hline : p.line = q.line := Nat.le_antisymm (hq.line_le hsorted hp) (hp.line_le hsorted hq)
  obtain ⟨start, hstart, hn⟩ := hp.start
  obtain ⟨start', hstart', hn'⟩ := hq.start
  rw [← hline, hstart] at hstart'
  cases hstart'
  have hcolumn : p.column = q.column := by
    have hp := hp.column_pos
    have hq := hq.column_pos
    omega
  cases p
  cases q
  cases hline
  cases hcolumn
  rfl

end

theorem standsFor_counting (h : n ≤ m) : (counting ends n).StandsFor (starts ends m) n := by
  obtain ⟨start, hlast, hn⟩ := getLast?_starts ends n
  obtain ⟨later, heq, hlater⟩ := @exists_later ends m n h
  have hlength := @length_starts ends n
  have hstart : start ≤ n := le_of_mem_starts (List.mem_of_getLast? hlast)
  have hpos : 0 < (starts ends n).length := Nat.succ_pos _
  rw [List.getLast?_eq_getElem?, hlength] at hlast
  refine ⟨by omega, by omega, ⟨start, ?_, by omega⟩, fun next hnext => ?_⟩
  · rw [heq, List.getElem?_append_left (by omega), hlast]
  · rw [heq, List.getElem?_append_right (by omega)] at hnext
    exact hlater next (List.mem_of_getElem? hnext)

theorem counting_eq_iff (h : n ≤ m) (p : Position) :
    counting ends n = p ↔ p.StandsFor (starts ends m) n := by
  constructor
  · rintro rfl
    exact standsFor_counting h
  · exact fun hp => (standsFor_counting h).unique (pairwise_starts ends m) hp

theorem counting_le (ends : Nat → Bool) (n : Nat) :
    (counting ends n).line ≤ n + 1 ∧ (counting ends n).column ≤ n + 1 := by
  induction n with
  | zero => exact ⟨le_rfl, le_rfl⟩
  | succ n ih =>
    rw [counting]
    split
    · exact ⟨Nat.succ_le_succ ih.1, Nat.succ_le_succ (Nat.zero_le _)⟩
    · exact ⟨ih.1.trans (Nat.le_succ _), Nat.succ_le_succ ih.2⟩

end Position

/-! ## Positions in a source text -/

/-- Whether a byte of a text is a newline. -/
def isNewlineAt (bytes : Bytes) (i : Nat) : Bool := bytes[i]? == some newline

theorem Position.after_concat (before : Bytes) (b : UInt8) : after (before ++ [b]) =
    if b == newline then ⟨(after before).line + 1, 1⟩
    else ⟨(after before).line, (after before).column + 1⟩ := by
  by_cases hb : b = newline <;> simp [after, hb]

/-- The position of a byte offset counts newline bytes. -/
theorem positionAt_eq_counting {bytes : Bytes} {n : Nat} (h : n ≤ bytes.length) :
    positionAt bytes n = Position.counting (isNewlineAt bytes) n := by
  induction n with
  | zero => rfl
  | succ n ih =>
    have hn : n < bytes.length := h
    rw [Position.counting, ← ih hn.le, positionAt, positionAt, List.take_succ_eq_append_getElem hn,
      Position.after_concat, isNewlineAt, List.getElem?_eq_getElem hn]
    rfl

theorem positionAt_eq_of_length_le {bytes : Bytes} {n : Nat} (h : bytes.length ≤ n) :
    positionAt bytes n = positionAt bytes bytes.length := by
  rw [positionAt, positionAt, List.take_of_length_le h, List.take_length]

/-- The offsets at which the lines of a text start: zero, and the byte after each newline. -/
def lineStarts (bytes : Bytes) : List Nat := Position.starts (isNewlineAt bytes) bytes.length

/-- An empty line starts at the newline that ends it. -/
example : lineStarts (bytesOf "a\n\nbc") = [0, 2, 3] ∧
    positionAt (bytesOf "a\n\nbc") 2 = ⟨2, 1⟩ := by decide

end IncrementalBuild
