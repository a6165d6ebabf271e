import IncrementalBuild.Proofs.Types.Canonical
import IncrementalBuild.Proofs.Types.Reading
import IncrementalBuild.Proofs.Types.Spelling

/-!
# What a name denotes

A width is read one digit at a time, and the reading stops as soon as the number is too
large. What it answers is nevertheless a matter of the whole text: of the number that its
digits write, however many they are, or of the first place where the text stops being a
width. With it every name falls into one of four kinds, and a store answers by the kind.
-/

set_option autoImplicit false

namespace IncrementalBuild

/-! ## Widths -/

/-- The answer to a text in place of a width, with the digits' number not bounded by what a
reading can hold. -/
inductive WidthText : List Char → Except WidthError Nat → Prop where
  | width {cs : List Char} (hdigits : ∀ c ∈ cs, c.isDigit = true)
      (hpos : 0 < Nat.ofDigitChars 10 cs 0) (hle : Nat.ofDigitChars 10 cs 0 ≤ maxWidth) :
      WidthText cs (.ok (Nat.ofDigitChars 10 cs 0))
  | zeros {cs : List Char} (hzeros : ∀ c ∈ cs, c = '0') : WidthText cs (.error .zero)
  /-- The digits so far write too large a number, whatever comes after them. -/
  | tooLarge {digits rest : List Char} (hdigits : ∀ c ∈ digits, c.isDigit = true)
      (hlt : maxWidth < Nat.ofDigitChars 10 digits 0) :
      WidthText (digits ++ rest) (.error .tooLarge)
  /-- A character that is no digit comes before the number gets too large. -/
  | notADigit {digits rest : List Char} {c : Char} (hdigits : ∀ c ∈ digits, c.isDigit = true)
      (hle : Nat.ofDigitChars 10 digits 0 ≤ maxWidth) (hc : c.isDigit = false) :
      WidthText (digits ++ c :: rest) (.error .notADigit)

/-- Digits are read up to the number they write, if it is not too large. -/
theorem widthFrom_append {n : Nat} {digits : List Char} (hn : n ≤ maxWidth)
    (hdigits : ∀ c ∈ digits, c.isDigit = true) (rest : List Char) :
    widthFrom n (digits ++ rest) =
      if maxWidth < Nat.ofDigitChars 10 digits n then .error .tooLarge
      else widthFrom (Nat.ofDigitChars 10 digits n) rest := by
  induction digits generalizing n with
  | nil =>
    rw [Nat.ofDigitChars_nil, if_neg (Nat.not_lt.2 hn)]
    rfl
  | cons c cs ih =>
    obtain ⟨hc, hcs⟩ := List.forall_mem_cons.1 hdigits
    rw [List.cons_append, widthFrom, if_pos hc, Nat.ofDigitChars_cons, Nat.mul_comm 10 n]
    dsimp only
    split
    · rename_i hlt
      have hmore := le_ofDigitChars (n * 10 + (c.toNat - '0'.toNat)) cs
      rw [if_pos (Nat.lt_of_lt_of_le hlt hmore)]
    · rename_i hle
      exact ih (Nat.not_lt.1 hle) hcs

theorem ofDigitChars_zeros {cs : List Char} (h : ∀ c ∈ cs, c = '0') :
    Nat.ofDigitChars 10 cs 0 = 0 := by
  induction cs with
  | nil => rfl
  | cons c cs ih =>
    obtain ⟨rfl, hcs⟩ := List.forall_mem_cons.1 h
    rw [Nat.ofDigitChars_cons]
    exact ih hcs

theorem eq_zero_of_isDigit {c : Char} (h : c.isDigit = true)
    (hzero : c.toNat - '0'.toNat = 0) : c = '0' := by
  have hlow : '0'.toNat ≤ c.toNat := by
    simp only [Char.isDigit, Bool.and_eq_true, decide_eq_true_eq] at h
    exact h.1
  have hval : c.toNat = '0'.toNat := by omega
  exact Char.ext (UInt32.toNat_inj.1 hval)

/-- Digits that write zero are zeros. -/
theorem zeros_of_ofDigitChars {cs : List Char} (hdigits : ∀ c ∈ cs, c.isDigit = true)
    (h : Nat.ofDigitChars 10 cs 0 = 0) : ∀ c ∈ cs, c = '0' := by
  induction cs with
  | nil => simp
  | cons c cs ih =>
    obtain ⟨hc, hcs⟩ := List.forall_mem_cons.1 hdigits
    rw [Nat.ofDigitChars_cons, Nat.mul_zero, Nat.zero_add] at h
    have hbound := le_ofDigitChars (c.toNat - '0'.toNat) cs
    have hvalue : c.toNat - '0'.toNat = 0 := by omega
    rw [hvalue] at h
    exact List.forall_mem_cons.2 ⟨eq_zero_of_isDigit hc hvalue, ih hcs h⟩

namespace WidthText

variable {cs : List Char} {answer : Except WidthError Nat}

/-- A text is read to its answer. -/
theorem widthFrom_eq (h : WidthText cs answer) : widthFrom 0 cs = answer := by
  cases h with
  | width hdigits hpos hle => exact widthFrom_digits hdigits hpos hle
  | zeros hzeros =>
    have hdigits : ∀ c ∈ cs, c.isDigit = true := by
      intro c hc
      rw [hzeros c hc]
      rfl
    rw [← List.append_nil cs, widthFrom_append (Nat.zero_le _) hdigits, ofDigitChars_zeros hzeros]
    rfl
  | tooLarge hdigits hlt => rw [widthFrom_append (Nat.zero_le _) hdigits, if_pos hlt]
  | notADigit hdigits hle hc =>
    rw [widthFrom_append (Nat.zero_le _) hdigits, if_neg (Nat.not_lt.2 hle), widthFrom, if_neg]
    rw [hc]
    exact Bool.false_ne_true

/-- Every text has an answer. -/
theorem exists_answer (cs : List Char) : ∃ answer, WidthText cs answer := by
  have hdigits : ∀ c ∈ cs.takeWhile (·.isDigit), c.isDigit = true :=
    fun c hc => List.mem_takeWhile_imp hc
  have hcs : cs.takeWhile (·.isDigit) ++ cs.dropWhile (·.isDigit) = cs :=
    List.takeWhile_append_dropWhile
  rw [← hcs]
  by_cases hlt : maxWidth < Nat.ofDigitChars 10 (cs.takeWhile (·.isDigit)) 0
  · exact ⟨_, .tooLarge hdigits hlt⟩
  have hle := Nat.not_lt.1 hlt
  cases hrest : cs.dropWhile (·.isDigit) with
  | nil =>
    rw [List.append_nil]
    by_cases hzero : Nat.ofDigitChars 10 (cs.takeWhile (·.isDigit)) 0 = 0
    · exact ⟨_, .zeros (zeros_of_ofDigitChars hdigits hzero)⟩
    · exact ⟨_, .width hdigits (Nat.pos_of_ne_zero hzero) hle⟩
  | cons c rest =>
    have hne : cs.dropWhile (·.isDigit) ≠ [] := by simp [hrest]
    have hc : c.isDigit = false := by
      have hhead := List.head_dropWhile_not Char.isDigit hne
      simpa [hrest] using hhead
    exact ⟨_, .notADigit hdigits hle hc⟩

end WidthText

/-- A text is read to an answer exactly when that is its answer. -/
theorem widthFrom_eq_iff {cs : List Char} {answer : Except WidthError Nat} :
    widthFrom 0 cs = answer ↔ WidthText cs answer := by
  constructor
  · rintro rfl
    obtain ⟨answer, hanswer⟩ := WidthText.exists_answer cs
    rwa [hanswer.widthFrom_eq]
  · exact WidthText.widthFrom_eq

/-! ## Names -/

/-- The answer to a name, by its kind. -/
inductive NameText : String → Except WidthError (Option NamedType) → Prop where
  | primitive (p : Primitive) : NameText p.spelling (.ok (some (.primitive p)))
  | int {sign : Signedness} {width : String} {bits : Nat}
      (hother : ∀ p : Primitive, p.spelling ≠ sign.letter ++ width) (hwidth : width ≠ "")
      (htext : WidthText width.toList (.ok bits)) :
      NameText (sign.letter ++ width) (.ok (some (.int sign bits)))
  | badWidth {sign : Signedness} {width : String} {e : WidthError}
      (hother : ∀ p : Primitive, p.spelling ≠ sign.letter ++ width) (hwidth : width ≠ "")
      (htext : WidthText width.toList (.error e)) :
      NameText (sign.letter ++ width) (.error e)
  | unknown {name : String} (hother : ∀ p : Primitive, p.spelling ≠ name)
      (hletter : ∀ (sign : Signedness) (width : String), name = sign.letter ++ width → width = "") :
      NameText name (.ok none)

theorem Primitive.mem_all (p : Primitive) : p ∈ all := by
  cases p <;> decide

theorem Primitive.ofSpelling?_eq_none {name : String} :
    ofSpelling? name = none ↔ ∀ p : Primitive, p.spelling ≠ name := by
  rw [ofSpelling?, List.find?_eq_none]
  constructor
  · intro h p hp
    exact h p p.mem_all (beq_iff_eq.2 hp)
  · intro h p _ hp
    exact h p (beq_iff_eq.1 hp)

theorem Primitive.spelling_of_ofSpelling? {name : String} {p : Primitive}
    (h : ofSpelling? name = some p) : p.spelling = name := by
  have hp := List.find?_some h
  rwa [beq_iff_eq] at hp

theorem Signedness.exists_toList_letter (sign : Signedness) (width : String) :
    ∃ letter, (sign.letter ++ width).toList = letter :: width.toList ∧
      ofLetter? letter = some sign := by
  rw [String.toList_append]
  cases sign
  · exact ⟨'i', rfl, rfl⟩
  · exact ⟨'u', rfl, rfl⟩

theorem Signedness.eq_letter_append {name : String} {letter : Char} {rest : List Char}
    {sign : Signedness} (hname : name.toList = letter :: rest)
    (hsign : ofLetter? letter = some sign) : name = sign.letter ++ String.ofList rest := by
  apply String.toList_inj.1
  rw [hname, String.toList_append, String.toList_ofList]
  unfold ofLetter? at hsign
  split at hsign
  · cases hsign
    rfl
  · cases hsign
    rfl
  · cases hsign

/-- A letter and something after it are read as that letter's width. -/
theorem NamedType.ofName?_letter {sign : Signedness} {width : String}
    (hother : ∀ p : Primitive, p.spelling ≠ sign.letter ++ width) (hwidth : width ≠ "") :
    ofName? (sign.letter ++ width) =
      (widthFrom 0 width.toList).map fun bits => some (.int sign bits) := by
  obtain ⟨letter, hname, hsign⟩ := sign.exists_toList_letter width
  have hne : width.toList ≠ [] := fun h => hwidth (String.toList_eq_nil_iff.1 h)
  obtain ⟨c, rest, hcs⟩ := List.exists_cons_of_ne_nil hne
  rw [hcs] at hname ⊢
  rw [ofName?, Primitive.ofSpelling?_eq_none.2 hother]
  dsimp only
  rw [hname]
  dsimp only
  rw [hsign]

namespace NameText

variable {name : String} {answer : Except WidthError (Option NamedType)}

/-- A name is read to its answer. -/
theorem ofName?_eq (h : NameText name answer) : NamedType.ofName? name = answer := by
  cases h with
  | primitive p => exact ofName?_spelling p
  | int hother hwidth htext =>
    rw [NamedType.ofName?_letter hother hwidth, htext.widthFrom_eq]
    rfl
  | badWidth hother hwidth htext =>
    rw [NamedType.ofName?_letter hother hwidth, htext.widthFrom_eq]
    rfl
  | unknown hother hletter =>
    rw [NamedType.ofName?, Primitive.ofSpelling?_eq_none.2 hother]
    dsimp only
    split
    · rename_i letter first rest hname
      split
      · rename_i sign hsign
        have hwidth := hletter sign _ (Signedness.eq_letter_append hname hsign)
        exact absurd (String.ofList_eq_empty_iff.1 hwidth) (List.cons_ne_nil first rest)
      · rfl
    · rfl

/-- Every name has an answer. -/
theorem exists_answer (name : String) : ∃ answer, NameText name answer := by
  cases hprimitive : Primitive.ofSpelling? name with
  | some p =>
    rw [← Primitive.spelling_of_ofSpelling? hprimitive]
    exact ⟨_, .primitive p⟩
  | none =>
    have hother := Primitive.ofSpelling?_eq_none.1 hprimitive
    by_cases hletter : ∃ (sign : Signedness) (width : String),
        name = sign.letter ++ width ∧ width ≠ ""
    · obtain ⟨sign, width, rfl, hwidth⟩ := hletter
      obtain ⟨e | bits, htext⟩ := WidthText.exists_answer width.toList
      · exact ⟨_, .badWidth hother hwidth htext⟩
      · exact ⟨_, .int hother hwidth htext⟩
    · refine ⟨_, .unknown hother fun sign width hname => ?_⟩
      by_contra hwidth
      exact hletter ⟨sign, width, hname, hwidth⟩

end NameText

/-- A name is read to an answer exactly when that is its answer. -/
theorem NamedType.ofName?_eq_iff {name : String} {answer : Except WidthError (Option NamedType)} :
    ofName? name = answer ↔ NameText name answer := by
  constructor
  · rintro rfl
    obtain ⟨answer, hanswer⟩ := NameText.exists_answer name
    rwa [hanswer.ofName?_eq]
  · exact NameText.ofName?_eq

/-! ## What a store answers -/

theorem NamedType.toTy_inj {a b : NamedType} (h : a.toTy = b.toTy) : a = b := by
  cases a <;> cases b <;> simp_all [NamedType.toTy]

namespace TypeStore

variable {s : TypeStore} {held : List TypeId} {name : String}

/-- A store answers a name with a handle of a type, and leaves the objects it has as they are. -/
def FindsNamed (s : TypeStore) (name : String) (type : Ty) : Prop :=
  ∃ answer, s.named? name = .ok (some answer) ∧ answer.2.denote? answer.1 = some type ∧
    s.shapes ⊆ answer.2.shapes

theorem named?_eq_none : s.named? name = .ok none ↔ NamedType.ofName? name = .ok none := by
  unfold named?
  rcases NamedType.ofName? name with e | _ | type <;> simp [Except.map]

theorem named?_eq_error {e : WidthError} :
    s.named? name = .error e ↔ NamedType.ofName? name = .error e := by
  unfold named?
  rcases NamedType.ofName? name with e | _ | type <;> simp [Except.map]

theorem Sound.findsNamed (h : s.Sound held) {type : NamedType}
    (hname : NamedType.ofName? name = .ok (some type)) : s.FindsNamed name type.toTy := by
  have hform : ∀ form : TypeForm, form.components = [] →
      form.toTy? s.denote? = some type.toTy → s.named? name = .ok (some (s.intern form)) →
      s.FindsNamed name type.toTy := by
    intro form hnone htype hanswer
    have hcomponents : ∀ c ∈ form.components, c ∈ s.ids := by simp [hnone]
    obtain ⟨hgrows, hdenotes⟩ := intern_denotes h hcomponents
    exact ⟨_, hanswer, hdenotes.trans htype, hgrows⟩
  cases type with
  | primitive p => exact hform (.primitive p) rfl rfl (by rw [named?, hname]; rfl)
  | int sign bits => exact hform (.int sign bits) rfl rfl (by rw [named?, hname]; rfl)

/-- A sound store answers a name with a handle of a type exactly when the name denotes it. -/
theorem Sound.findsNamed_iff (h : s.Sound held) {type : NamedType} :
    s.FindsNamed name type.toTy ↔ NamedType.ofName? name = .ok (some type) := by
  refine ⟨?_, h.findsNamed⟩
  rintro ⟨answer, hanswer, hdenotes, -⟩
  rcases hname : NamedType.ofName? name with e | _ | other
  · rw [named?_eq_error.2 hname] at hanswer
    cases hanswer
  · rw [named?_eq_none.2 hname] at hanswer
    cases hanswer
  · obtain ⟨answer', hanswer', hdenotes', -⟩ := h.findsNamed hname
    rw [hanswer] at hanswer'
    obtain rfl : answer = answer' := by simpa using hanswer'
    rw [hdenotes] at hdenotes'
    rw [NamedType.toTy_inj (Option.some.inj hdenotes')]

end TypeStore

namespace TypeClient

/-- However a client has used a store, a name is answered by its kind: with a handle of the
type that it denotes, with none, or with what is wrong with its width; and a name without a
type leaves the store as it is. -/
theorem names_by_kind (requests : List TypeRequest) (name : String) :
    (∀ type : NamedType, (run requests).store.FindsNamed name type.toTy ↔
      NameText name (.ok (some type))) ∧
    ((run requests).store.named? name = .ok none ↔ NameText name (.ok none)) ∧
    (∀ e, (run requests).store.named? name = .error e ↔ NameText name (.error e)) ∧
    ((¬∃ type : NamedType, NameText name (.ok (some type))) →
      (run requests).serve (.named name) = run requests) := by
  have h : (run requests).store.Sound _ := sound_run requests
  refine ⟨fun type => ?_, ?_, fun e => ?_, fun hnone => ?_⟩
  · rw [h.findsNamed_iff, NamedType.ofName?_eq_iff]
  · rw [TypeStore.named?_eq_none, NamedType.ofName?_eq_iff]
  · rw [TypeStore.named?_eq_error, NamedType.ofName?_eq_iff]
  · rcases hname : NamedType.ofName? name with e | _ | type
    · rw [serve, TypeStore.named?_eq_error.2 hname]
    · rw [serve, TypeStore.named?_eq_none.2 hname]
    · exact absurd ⟨type, NamedType.ofName?_eq_iff.1 hname⟩ hnone

-- zeros in front do not count, and the number is too large before the `x` is reached
example : NamedType.ofName? "u0000000065535" = .ok (some (.int .unsigned 65535)) ∧
    NamedType.ofName? "i65536x" = .error .tooLarge ∧
    NamedType.ofName? "i6553x6" = .error .notADigit := by decide +kernel

end TypeClient

end IncrementalBuild
