import IncrementalBuild.Proofs.Syntax.Munch
import IncrementalBuild.Proofs.Syntax.Types
import Mathlib.Data.List.Forall2
import Mathlib.Data.Nat.Digits.Defs
import Mathlib.Tactic.IntervalCases

/-!
# Integer literals as array lengths

Every integer token writes digits of one base (`WritesDigits`): decimal ones, or hexadecimal ones
after `0x`, with underscores that do not count. As an array length it is read as the number of these
digits, whatever their number. Only a literal without a digit, or with a number from `2 ^ 64` on, is
none, and the error is over that token.

## Main results

* `literalValue?_eq`: the value of the digits that are written.
* `exists_writesDigits`: every integer token writes digits.
-/

set_option autoImplicit false

namespace IncrementalBuild

/-! ## Digits -/

/-- A character is a digit of a base; the digits above nine are letters, small or capital. -/
def IsDigitOf (base : Nat) (c : Char) (d : Nat) : Prop := d < base ∧ c.toLower = d.digitChar

section

variable {base d : Nat} {c : Char} {cs : List Char} {digits : List Nat}

theorem toNat_toLower (c : Char) :
    c.toLower.toNat = if 65 ≤ c.toNat ∧ c.toNat ≤ 90 then c.toNat + 32 else c.toNat := by
  by_cases h : c.isUpper = true
  · have hupper := isUpper_iff.1 h
    have hval : c.toLower.val = c.val + 32 := congrArg Char.val (dif_pos (of_decide_eq_true h))
    rw [if_pos hupper, ← Char.toNat_val, hval, UInt32.toNat_add, Char.toNat_val]
    show (c.toNat + 32) % 2 ^ 32 = _
    omega
  · rw [if_neg (mt isUpper_iff.2 h)]
    exact congrArg Char.toNat (dif_neg (mt decide_eq_true h))

theorem toNat_digitChar (h : d < 16) :
    d.digitChar.toNat = if d < 10 then 48 + d else 87 + d := by
  interval_cases d <;> rfl

theorem isDigitOf_iff (hbase : base ≤ 16) :
    IsDigitOf base c d ↔ d < base ∧ Lexeme.isHexDigit c = true ∧ digitValue c = d := by
  refine and_congr_right fun hd => ?_
  rw [← Char.toNat_inj, toNat_toLower, toNat_digitChar (by omega), digitValue]
  simp only [Lexeme.isHexDigit, Bool.or_eq_true, Bool.and_eq_true, decide_eq_true_eq, isDigit_iff,
    char_le_iff, Char.reduceToNat]
  split_ifs <;> omega

theorem isDigitOf_ten (h : c.isDigit = true) : IsDigitOf 10 c (digitValue c) := by
  have hhex : Lexeme.isHexDigit c = true := by simp [Lexeme.isHexDigit, h]
  refine (isDigitOf_iff (by decide)).2 ⟨?_, hhex, rfl⟩
  rw [digitValue, if_pos h]
  have hle := (isDigit_iff.1 h).2
  show c.toNat - 48 < 10
  omega

theorem isDigitOf_sixteen (h : Lexeme.isHexDigit c = true) : IsDigitOf 16 c (digitValue c) := by
  refine (isDigitOf_iff le_rfl).2 ⟨?_, h, rfl⟩
  simp only [Lexeme.isHexDigit, Bool.or_eq_true, Bool.and_eq_true, decide_eq_true_eq, isDigit_iff,
    char_le_iff, Char.reduceToNat] at h
  simp only [digitValue, Bool.and_eq_true, decide_eq_true_eq, isDigit_iff, char_le_iff,
    Char.reduceToNat]
  split_ifs <;> omega

theorem forall₂_digitValue {P : Char → Prop} (hP : ∀ c, P c → IsDigitOf base c (digitValue c))
    (h : ∀ c ∈ cs, P c) : List.Forall₂ (IsDigitOf base) cs (cs.map digitValue) := by
  rw [List.forall₂_map_right_iff, List.forall₂_same]
  exact fun c hc => hP c (h c hc)

theorem isHexDigit_of_forall₂ (hbase : base ≤ 16) (h : List.Forall₂ (IsDigitOf base) cs digits) :
    ∀ c ∈ cs, Lexeme.isHexDigit c = true :=
  ((List.forall₂_and_left _ _).1 (h.imp fun _ _ hd => ⟨((isDigitOf_iff hbase).1 hd).2.1, hd⟩)).1

/-- Digits are read as the number they write. -/
theorem numeral_eq (hbase : base ≤ 16) (h : List.Forall₂ (IsDigitOf base) cs digits) :
    numeral base cs = Nat.ofDigits base digits.reverse := by
  have hfold (n : Nat) : cs.foldl (fun n c => n * base + digitValue c) n =
      digits.foldl (fun n d => d + base * n) n := by
    induction h generalizing n with
    | nil => rfl
    | cons hc _ ih =>
      obtain ⟨-, -, rfl⟩ := (isDigitOf_iff hbase).1 hc
      rw [List.foldl_cons, List.foldl_cons, ih, Nat.mul_comm, Nat.add_comm]
  rw [numeral, hfold, Nat.ofDigits_eq_foldr, List.foldr_reverse]
  rfl

/-- The bound on a number in terms of its digits. -/
theorem numeral_if_bounded (hbase : base ≤ 16) (h : List.Forall₂ (IsDigitOf base) cs digits) :
    (if cs.isEmpty || UInt64.size ≤ numeral base cs then none else some (numeral base cs)) =
      if digits ≠ [] ∧ Nat.ofDigits base digits.reverse < 2 ^ 64 then
        some (Nat.ofDigits base digits.reverse)
      else none := by
  have hsize : UInt64.size = 2 ^ 64 := rfl
  have hempty : cs.isEmpty = true ↔ digits = [] := by
    rw [List.isEmpty_iff]
    cases h <;> simp
  rw [numeral_eq hbase h, hsize]
  by_cases hfits : digits ≠ [] ∧ Nat.ofDigits base digits.reverse < 2 ^ 64
  · rw [if_pos hfits, if_neg]
    simpa [hempty] using hfits
  · rw [if_neg hfits, if_pos]
    simpa [hempty, or_iff_not_imp_left] using hfits

end

/-! ## Literals -/

/-- What an integer literal says: decimal digits, or hexadecimal digits after `0x`, the highest
first. Underscores do not count. -/
inductive WritesDigits : List Char → (base : Nat) → List Nat → Prop where
  | decimal {cs : List Char} {digits : List Nat} :
      List.Forall₂ (IsDigitOf 10) (cs.filter (· != '_')) digits → WritesDigits cs 10 digits
  | hexadecimal {cs : List Char} {digits : List Nat} :
      List.Forall₂ (IsDigitOf 16) (cs.filter (· != '_')) digits →
      WritesDigits ('0' :: 'x' :: cs) 16 digits

section

variable {base : Nat} {digits : List Nat} {text : String} {cs : List Char}

theorem literalValue?_of_hexadecimal (h : text.toList.filter (· != '_') = '0' :: 'x' :: cs) :
    literalValue? text =
      if cs.isEmpty || UInt64.size ≤ numeral 16 cs then none else some (numeral 16 cs) := by
  rw [literalValue?, h]
  rfl

theorem literalValue?_of_decimal (h : text.toList.filter (· != '_') = cs) (hx : 'x' ∉ cs) :
    literalValue? text =
      if cs.isEmpty || UInt64.size ≤ numeral 10 cs then none else some (numeral 10 cs) := by
  rw [literalValue?, h]
  split
  rename_i base digits hparts
  split at hparts
  · simp at hx
  · cases hparts
    rfl

/-- A literal has the value its digits write, if there are any and it is below `2 ^ 64`. -/
theorem literalValue?_eq (h : WritesDigits text.toList base digits) :
    literalValue? text =
      if digits ≠ [] ∧ Nat.ofDigits base digits.reverse < 2 ^ 64 then
        some (Nat.ofDigits base digits.reverse)
      else none := by
  generalize htext : text.toList = cs at h
  cases h with
  | decimal hdigits =>
    -- no decimal digit is an `x`, so these are not taken for hexadecimal ones
    have hx : 'x' ∉ cs.filter (· != '_') := fun hmem =>
      absurd (isHexDigit_of_forall₂ (by decide) hdigits 'x' hmem) (by decide)
    rw [literalValue?_of_decimal (congrArg _ htext) hx, numeral_if_bounded (by decide) hdigits]
  | @hexadecimal cs _ hdigits =>
    have hfilter : text.toList.filter (· != '_') = '0' :: 'x' :: cs.filter (· != '_') := by
      rw [htext]
      rfl
    rw [literalValue?_of_hexadecimal hfilter, numeral_if_bounded le_rfl hdigits]

theorem forall_mem_filter_underscore {p : Char → Bool} (h : ∀ c ∈ cs, (p c || c == '_') = true) :
    ∀ c ∈ cs.filter (· != '_'), p c = true := by
  intro c hc
  obtain ⟨hmem, hne⟩ := List.mem_filter.1 hc
  simpa [bne_iff_ne.1 hne] using h c hmem

/-- An integer token writes digits. -/
theorem exists_writesDigits (h : Piece (.token .integer) cs) :
    ∃ base digits, WritesDigits cs base digits := by
  generalize hkind : PieceKind.token .integer = kind at h
  cases h with
  | @decimal c u hc hu =>
    have hall : ∀ d ∈ c :: u, (d.isDigit || d == '_') = true :=
      List.forall_mem_cons.2 ⟨by rw [hc, Bool.true_or], hu⟩
    exact ⟨10, _, .decimal
      (forall₂_digitValue (fun _ => isDigitOf_ten) (forall_mem_filter_underscore hall))⟩
  | @hexadecimal c u hc hu =>
    have hall : ∀ d ∈ c :: u, (Lexeme.isHexDigit d || d == '_') = true :=
      List.forall_mem_cons.2 ⟨hc, hu⟩
    exact ⟨16, _, .hexadecimal
      (forall₂_digitValue (fun _ => isDigitOf_sixteen) (forall_mem_filter_underscore hall))⟩
  | word _ _ hword =>
    cases hkind
    rcases hword with hword | hword
    · cases hword
    · rcases TokenKind.ofWord_cases (String.ofList _) with hk | hk <;>
        rw [← hword] at hk <;> cases hk
  | sign hsign =>
    cases hkind
    rcases TokenKind.ofSign?_eq_some hsign with ⟨hk, -⟩ | hk <;> cases hk
  | _ => cases hkind

end

/-- The tokens of a text are pieces of their kinds. -/
theorem piece_of_mem_lex {source : String} {tokens : List Token} {t : Token}
    (hlex : lex source = .ok tokens) (ht : t ∈ tokens) : Piece (.token t.kind) t.text.toList := by
  have hmunched := munched_of_lexFrom 0 source.toList
  rw [lex] at hlex
  rw [hlex] at hmunched
  obtain ⟨_, _, _, _, hlongest⟩ := (hmunched.standsIn t ht).place
  obtain ⟨p, hp, hmatches⟩ := hlongest.matched
  exact piece_of_matches hp hmatches

/-! ## Array lengths -/

/-- The error over a literal that is no array length. -/
def Token.lengthError (t : Token) : SyntaxError where
  cause := .invalidLength t.text
  span := t.span

namespace Reader

/-- The reader of an array type that starts at `start`, from the end of its length on. -/
def arrayOf (start : Span) (element : Reader TypeExpr) (length : Nat) : Reader TypeExpr := do
  discard <| expect .rightBracket
  let element ← element
  return .array length element (start.merge element.span)

theorem typeWithin_bracket {stop levels : Nat} {opener t : Token} {rest : List Token}
    (hopener : opener.kind = .leftBracket) (hkind : t.kind ≠ .star) :
    typeWithin (levels + 1) stop (opener :: t :: rest) =
      (arrayLength >>= arrayOf opener.span (typeWithin levels)) stop (t :: rest) := by
  have hhere : here stop (opener :: t :: rest) = .done opener.span [] (opener :: t :: rest) := rfl
  have hpeek : peek stop (opener :: t :: rest) =
      .done (some opener.kind) [] (opener :: t :: rest) := rfl
  have heat : (discard <| eat .leftBracket) stop (opener :: t :: rest) =
      .done () [] (t :: rest) := by
    show (eat .leftBracket >>= fun _ => pure ()) stop (opener :: t :: rest) = _
    rw [silent_bind (eat_of_kind hopener)]
    rfl
  have hstar : eat .star stop (t :: rest) = .done none [] (t :: rest) := by
    rw [eat, if_neg hkind]
  rw [typeWithin, silent_bind hhere, silent_bind hpeek, hopener]
  dsimp only
  rw [silent_bind heat, silent_bind hstar]
  rfl

end Reader

open Reader

/-- As an array length, an integer token of a text is read as the number its digits write, exactly
if it has a digit and the number is below `2 ^ 64`. Otherwise it is reported, as E1005 and over just
that token; and so is a type that has it as its length. -/
theorem array_length_is_number_written {source : String} {tokens : List Token} {t : Token}
    (hlex : lex source = .ok tokens) (ht : t ∈ tokens) (hkind : t.kind = .integer) :
    (∃ base digits, WritesDigits t.text.toList base digits) ∧
    t.lengthError.code = .E1005 ∧ t.lengthError.span = t.span ∧
    ∀ base digits, WritesDigits t.text.toList base digits → ∀ stop rest,
      arrayLength stop (t :: rest) =
        (if digits ≠ [] ∧ Nat.ofDigits base digits.reverse < 2 ^ 64 then
          .done (Nat.ofDigits base digits.reverse) [] rest
        else .failed t.lengthError []) ∧
      ∀ levels opener, opener.kind = .leftBracket →
        typeWithin (levels + 1) stop (opener :: t :: rest) =
          if digits ≠ [] ∧ Nat.ofDigits base digits.reverse < 2 ^ 64 then
            arrayOf opener.span (typeWithin levels) (Nat.ofDigits base digits.reverse) stop rest
          else .failed t.lengthError [] := by
  refine ⟨exists_writesDigits (hkind ▸ piece_of_mem_lex hlex ht), rfl, rfl, ?_⟩
  intro base digits hdigits stop rest
  have hlength := @arrayLength_eq stop rest t hkind
  rw [literalValue?_eq hdigits] at hlength
  have hbracket (levels : Nat) {opener : Token} (hopener : opener.kind = .leftBracket) :=
    @typeWithin_bracket stop levels opener t rest hopener (by simp [hkind])
  split_ifs at hlength ⊢
  · exact ⟨hlength, fun levels opener hopener =>
      (hbracket levels hopener).trans (silent_bind hlength)⟩
  · exact ⟨hlength, fun levels opener hopener =>
      (hbracket levels hopener).trans (failed_bind hlength)⟩

/-- The greatest array length, in decimal digits. -/
def greatestLength : Token := ⟨.integer, "18446744073709551615", ⟨1, 21⟩⟩

/-- One more, in hexadecimal digits. -/
def exceedingLength : Token := ⟨.integer, "0x1_0000_0000_0000_0000", ⟨23, 46⟩⟩

theorem greatest_length_is_last :
    lex "[18446744073709551615][0x1_0000_0000_0000_0000]u8" = .ok
      [⟨.leftBracket, "[", ⟨0, 1⟩⟩, greatestLength, ⟨.rightBracket, "]", ⟨21, 22⟩⟩,
        ⟨.leftBracket, "[", ⟨22, 23⟩⟩, exceedingLength, ⟨.rightBracket, "]", ⟨46, 47⟩⟩,
        ⟨.identifier, "u8", ⟨47, 49⟩⟩] ∧
    arrayLength 49 [greatestLength] = .done 18446744073709551615 [] [] ∧
    arrayLength 49 [exceedingLength] = .failed exceedingLength.lengthError [] := by
  have hlex : lex "[18446744073709551615][0x1_0000_0000_0000_0000]u8" = .ok
      [⟨.leftBracket, "[", ⟨0, 1⟩⟩, greatestLength, ⟨.rightBracket, "]", ⟨21, 22⟩⟩,
        ⟨.leftBracket, "[", ⟨22, 23⟩⟩, exceedingLength, ⟨.rightBracket, "]", ⟨46, 47⟩⟩,
        ⟨.identifier, "u8", ⟨47, 49⟩⟩] := by decide +kernel
  have hdecimal : WritesDigits greatestLength.text.toList 10 _ :=
    .decimal (forall₂_digitValue (fun _ => isDigitOf_ten) (List.all_eq_true.1 (by decide)))
  have hhexadecimal : WritesDigits exceedingLength.text.toList 16 _ :=
    .hexadecimal (forall₂_digitValue (fun _ => isDigitOf_sixteen) (List.all_eq_true.1 (by decide)))
  have hgreatest := (array_length_is_number_written hlex (t := greatestLength)
    (by decide) rfl).2.2.2 10 _ hdecimal 49 []
  have hexceeding := (array_length_is_number_written hlex (t := exceedingLength)
    (by decide) rfl).2.2.2 16 _ hhexadecimal 49 []
  exact ⟨hlex, hgreatest.1.trans (if_pos (by decide)), hexceeding.1.trans (if_neg (by decide))⟩

end IncrementalBuild
