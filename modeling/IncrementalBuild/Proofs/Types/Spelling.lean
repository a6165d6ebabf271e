import IncrementalBuild.Proofs.Source.Numbers
import IncrementalBuild.Proofs.Syntax.Literals
import IncrementalBuild.Proofs.Syntax.Slots
import IncrementalBuild.Proofs.Types.Meaning

/-!
# The written form of a type is read as that type

Every type that a written type can mean has a written form of its own, and wherever that stands
it is lexed and parsed to a type that means the same again.
-/

set_option autoImplicit false

namespace IncrementalBuild

open Grammar Lexeme

/-! ## Numbers -/

/-- Digits are read as the width they write. -/
theorem widthFrom_digits {n : Nat} {cs : List Char} (hcs : ∀ c ∈ cs, c.isDigit = true)
    (hpos : 0 < Nat.ofDigitChars 10 cs n) (hle : Nat.ofDigitChars 10 cs n ≤ maxWidth) :
    widthFrom n cs = .ok (Nat.ofDigitChars 10 cs n) := by
  induction cs generalizing n with
  | nil => exact if_neg (Nat.pos_iff_ne_zero.1 hpos)
  | cons c cs ih =>
    obtain ⟨hc, hcs⟩ := List.forall_mem_cons.1 hcs
    rw [Nat.ofDigitChars_cons, Nat.mul_comm] at hpos hle ⊢
    have hbound := le_ofDigitChars (n * 10 + (c.toNat - '0'.toNat)) cs
    rw [widthFrom, if_pos hc, if_neg (by omega)]
    exact ih hcs hpos hle

/-- A width that is read is a width of an integer type. -/
theorem bounds_of_widthFrom {n bits : Nat} {cs : List Char} (hn : n ≤ maxWidth)
    (h : widthFrom n cs = .ok bits) : 0 < bits ∧ bits ≤ maxWidth := by
  fun_induction widthFrom n cs with
  | case1 => cases h
  | case2 n hn' =>
    cases h
    exact ⟨Nat.pos_of_ne_zero hn', hn⟩
  | case3 => cases h
  | case4 n c rest hc next hle ih => exact ih (by omega) h
  | case5 => cases h

theorem foldl_digitValue {n : Nat} {cs : List Char} (hcs : ∀ c ∈ cs, c.isDigit = true) :
    cs.foldl (fun n c => n * 10 + digitValue c) n = Nat.ofDigitChars 10 cs n := by
  induction cs generalizing n with
  | nil => rfl
  | cons c cs ih =>
    obtain ⟨hc, hcs⟩ := List.forall_mem_cons.1 hcs
    rw [List.foldl_cons, ih hcs, Nat.ofDigitChars_cons, digitValue, if_pos hc, Nat.mul_comm]

/-- A number is read as the array length it writes. -/
theorem literalValue?_toString {n : Nat} (h : n < UInt64.size) :
    literalValue? (toString n) = some n := by
  have hdigits : ∀ c ∈ (toString n).toList, c.isDigit = true := fun c => isDigit_of_mem_toString
  have hfilter : (toString n).toList.filter (· != '_') = (toString n).toList := by
    refine List.filter_eq_self.2 fun c hc => ?_
    rw [bne_iff_ne]
    rintro rfl
    exact absurd (hdigits '_' hc) (by decide)
  have hvalue : numeral 10 (toString n).toList = n :=
    (foldl_digitValue hdigits).trans (ofDigitChars_toString n)
  have hx : 'x' ∉ (toString n).toList := notMem_toString (by decide) n
  obtain ⟨c, cs, hcs, -⟩ := exists_toString n
  rw [literalValue?_of_decimal hfilter hx, hvalue, hcs]
  exact if_neg (by simpa using h)

/-! ## Names -/

theorem Primitive.second_not_digit (p : Primitive) :
    (p.spelling.toList.drop 1).head?.any (·.isDigit) = false := by
  cases p <;> rfl

/-- The name of an integer type is a letter before digits. -/
theorem exists_letter (sign : Signedness) (bits : Nat) :
    ∃ letter, (sign.letter ++ toString bits).toList = letter :: (toString bits).toList ∧
      startsWord letter = true ∧ Signedness.ofLetter? letter = some sign := by
  rw [String.toList_append]
  cases sign
  · exact ⟨'i', rfl, by decide, rfl⟩
  · exact ⟨'u', rfl, by decide, rfl⟩

/-- The name of an integer type denotes it. -/
theorem ofName?_int (sign : Signedness) {bits : Nat} (hpos : 0 < bits) (hle : bits ≤ maxWidth) :
    NamedType.ofName? (sign.letter ++ toString bits) = .ok (some (.int sign bits)) := by
  obtain ⟨c, cs, hcs, hc⟩ := exists_toString bits
  have hwidth : widthFrom 0 (c :: cs) = .ok bits := by
    have hvalue := ofDigitChars_toString bits
    have hdigits := @widthFrom_digits 0 (toString bits).toList
      (fun c => isDigit_of_mem_toString) (by omega) (by omega)
    rwa [hvalue, hcs] at hdigits
  obtain ⟨letter, htext, -, hsign⟩ := exists_letter sign bits
  rw [hcs] at htext
  have hnone : Primitive.ofSpelling? (sign.letter ++ toString bits) = none := by
    refine List.find?_eq_none.2 fun p _ hp => ?_
    have hdigit := p.second_not_digit
    rw [eq_of_beq hp, htext] at hdigit
    exact absurd hc (by simpa using hdigit)
  rw [NamedType.ofName?, hnone]
  dsimp only
  rw [htext]
  dsimp only
  rw [hsign, hwidth]
  rfl

theorem ofName?_spelling (p : Primitive) :
    NamedType.ofName? p.spelling = .ok (some (.primitive p)) := by
  cases p <;> rfl

/-- A text is a word, and one of a kind. -/
structure IsWord (kind : TokenKind) (text : String) : Prop where
  letters : ∃ c cs, text.toList = c :: cs ∧ startsWord c = true ∧ ∀ d ∈ cs, continuesWord d = true
  kind_eq : TokenKind.ofWord text = kind

theorem isWord_spelling {p : Primitive} (hundefined : p ≠ .undefined) (hnull : p ≠ .null) :
    IsWord .identifier p.spelling := by
  cases p with
  | undefined => contradiction
  | null => contradiction
  | _ => exact ⟨⟨_, _, rfl, by decide, List.all_eq_true.1 (by decide)⟩, by decide⟩

theorem TokenKind.second_not_digit {kind : TokenKind} {s : String} (h : kind.spelling? = some s) :
    (s.toList.drop 1).head?.any (·.isDigit) = false := by
  cases kind <;> cases h <;> rfl

theorem isWord_int (sign : Signedness) (bits : Nat) :
    IsWord .identifier (sign.letter ++ toString bits) := by
  obtain ⟨c, cs, hcs, hc⟩ := exists_toString bits
  obtain ⟨letter, htext, hstart, -⟩ := exists_letter sign bits
  refine ⟨⟨letter, _, htext, hstart, fun d hd => ?_⟩, ?_⟩
  · exact (continuesWord_of_isDigit (isDigit_of_mem_toString hd)).1
  · rcases TokenKind.ofWord_cases (sign.letter ++ toString bits) with hword | hword
    · exact hword
    · have hdigit := TokenKind.second_not_digit hword
      rw [htext, hcs] at hdigit
      exact absurd hc (by simpa using hdigit)

/-! ## Pieces of the written form -/

theorem takeWhile_eq_left {p : Char → Bool} {w cs : List Char} (hw : ∀ d ∈ w, p d = true)
    (hcs : ∀ d ∈ cs.head?, p d = false) : (w ++ cs).takeWhile p = w := by
  rw [List.takeWhile_append_of_pos hw]
  cases cs with
  | nil => simp
  | cons d cs => rw [List.takeWhile_cons_of_neg (by simpa using hcs d rfl), List.append_nil]

namespace Lexes

variable {o : Nat} {cs : List Char} {tokens : List Token}

/-- A sign of one character before a text is a token of its own. -/
theorem sign (c : Char) (kind : TokenKind) (hc : TokenKind.ofSign? c = some kind)
    (hslash : c ≠ '/') (h : Lexes (o + c.utf8Size) cs tokens) :
    Lexes o (c :: cs) (⟨kind, String.ofList [c], ⟨o, o + c.utf8Size⟩⟩ :: tokens) := by
  have hscan : scan c ([] ++ cs) = (.token kind, 0) :=
    (scan_sign hc).resolve_right fun hcomment => hslash hcomment.1
  rw [← utf8Length_singleton] at h ⊢
  exact @Lexes.token o c [] cs kind tokens hscan h

/-- A word that does not go on in the text after it is a token of its own. -/
theorem word {kind : TokenKind} {text : String} (hword : IsWord kind text)
    (hcs : ∀ d ∈ cs.head?, continuesWord d = false)
    (h : Lexes (o + utf8Length text.toList) cs tokens) :
    Lexes o (text.toList ++ cs) (⟨kind, text, ⟨o, o + utf8Length text.toList⟩⟩ :: tokens) := by
  obtain ⟨⟨c, w, hcw, hc, hw⟩, rfl⟩ := hword
  have htext : String.ofList (c :: w) = text := by
    rw [← hcw, String.ofList_toList]
  have hscan : scan c (w ++ cs) = (.token (.ofWord (String.ofList (c :: w))), w.length) := by
    rw [scan_word hc, takeWhile_eq_left hw hcs]
  rw [hcw] at h ⊢
  rw [← htext]
  exact .token hscan h

/-- A number before a closing bracket is a token of its own. -/
theorem number (n : Nat) (h : Lexes (o + utf8Length (toString n).toList) (']' :: cs) tokens) :
    Lexes o ((toString n).toList ++ ']' :: cs)
      (⟨.integer, toString n, ⟨o, o + utf8Length (toString n).toList⟩⟩ :: tokens) := by
  obtain ⟨c, w, hcw, hc⟩ := exists_toString n
  have hdigits : ∀ d ∈ w, d.isDigit = true := fun d hd =>
    isDigit_of_mem_toString (hcw ▸ List.mem_cons_of_mem _ hd)
  have hrun : (w ++ ']' :: cs).takeWhile continuesDecimal = w := by
    refine takeWhile_eq_left (fun d hd => ?_) fun d hd => ?_
    · rw [continuesDecimal, hdigits d hd, Bool.true_or]
    · cases hd
      decide
  have hhead : (w ++ ']' :: cs).head? ≠ some 'x' := by
    cases w with
    | nil => simp
    | cons d w =>
      rintro hd
      cases hd
      exact absurd (hdigits 'x' (List.mem_cons_self ..)) (by decide)
  have hscan : scan c (w ++ ']' :: cs) = (.token .integer, w.length) := by
    rw [scan_digit hc, if_neg fun hhex => hhead hhex.2.1, hrun]
  have htext : String.ofList (c :: w) = toString n := by
    rw [← hcw, String.ofList_toList]
  rw [hcw] at h ⊢
  rw [← htext]
  exact .token hscan h

end Lexes

/-! ## Written forms -/

section

variable {levels : Nat} {text : List Char} {ty : Ty}

/-- The name of a type spells it. -/
theorem spells_name {name : String} (hname : IsWord .identifier name) {type : NamedType}
    (htype : NamedType.ofName? name = .ok (some type)) :
    Spells (levels + 1) name.toList (·.meaning? = some type.toTy) := by
  intro o rest tokens hrest h
  refine ⟨[_], .named name ⟨o, _⟩, h.word hname hrest, .named rfl, rfl, ?_⟩
  dsimp only
  rw [TypeExpr.meaning?, htype]
  rfl

/-- A length in brackets before the written form of the elements spells an array. -/
theorem Spells.array (h : Spells levels text (·.meaning? = some ty)) {n : Nat}
    (hn : n < UInt64.size) :
    Spells (levels + 1) ('[' :: ((toString n).toList ++ ']' :: text))
      (·.meaning? = some (.array ty n)) := by
  intro o rest tokens hrest htokens
  simp only [utf8Length_cons, utf8Length_append, ← Nat.add_assoc] at htokens ⊢
  obtain ⟨used, e, hlexes, htype, hspan, hmeaning⟩ := h _ rest tokens hrest htokens
  have hcloser := hlexes.sign ']' .rightBracket rfl (by decide)
  have hopener := (hcloser.number n).sign '[' .leftBracket rfl (by decide)
  have htext : '[' :: ((toString n).toList ++ ']' :: text) ++ rest =
      '[' :: ((toString n).toList ++ ']' :: (text ++ rest)) := by
    rw [List.cons_append, List.append_assoc]
    rfl
  rw [htext]
  refine ⟨_ :: _ :: _ :: used, _, hopener,
    .array rfl rfl (literalValue?_toString hn) rfl htype, ?_, ?_⟩
  · rw [TypeExpr.span, Span.merge, hspan, Span.mk.injEq]
    dsimp only
    omega
  · dsimp only
    rw [TypeExpr.meaning?, hmeaning]
    rfl

theorem head_stops {c : Char} (hc : continuesWord c = false) (cs : List Char) :
    ∀ d ∈ (c :: cs).head?, continuesWord d = false := by
  intro d hd
  cases hd
  exact hc

/-- A qualifier before a blank, or nothing, spells that there is the qualifier or not. -/
theorem exists_qualifier {kind : TokenKind} {word : String} (hword : IsWord kind word)
    (isThere : Bool) {o : Nat} {cs : List Char} {tokens : List Token}
    (h : Lexes (o + utf8Length (if isThere then word ++ " " else "").toList) cs tokens) :
    ∃ used, Lexes o ((if isThere then word ++ " " else "").toList ++ cs) (used ++ tokens) ∧
      (∀ t ∈ used, t.kind = kind) ∧ ∀ k, has k used = (isThere && decide (kind = k)) := by
  cases isThere with
  | false => exact ⟨[], h, by simp, fun k => rfl⟩
  | true =>
    simp only [if_true, String.toList_append, utf8Length_append, ← Nat.add_assoc] at h ⊢
    have hblank := @Lexes.blank _ ' ' _ _ rfl h
    rw [List.append_assoc]
    exact ⟨[_], hblank.word hword (head_stops rfl cs), by simp, fun k => by simp [has]⟩

theorem isWord_const : IsWord .constKeyword "const" :=
  ⟨⟨_, _, rfl, by decide, List.all_eq_true.1 (by decide)⟩, rfl⟩

theorem isWord_volatile : IsWord .volatileKeyword "volatile" :=
  ⟨⟨_, _, rfl, by decide, List.all_eq_true.1 (by decide)⟩, rfl⟩

theorem isWord_fn : IsWord .fnKeyword "fn" :=
  ⟨⟨_, _, rfl, by decide, List.all_eq_true.1 (by decide)⟩, rfl⟩

/-- The qualifiers that a pointer type writes are read. -/
theorem exists_qualifiers (isConst isVolatile : Bool) {o : Nat} {cs : List Char}
    {tokens : List Token}
    (h : Lexes (o + utf8Length ((if isConst then "const" ++ " " else "").toList ++
      (if isVolatile then "volatile" ++ " " else "").toList)) cs tokens) :
    ∃ used, Lexes o (((if isConst then "const" ++ " " else "").toList ++
        (if isVolatile then "volatile" ++ " " else "").toList) ++ cs) (used ++ tokens) ∧
      Grammar.Qualifiers used ∧ has .constKeyword used = isConst ∧
      has .volatileKeyword used = isVolatile := by
  rw [utf8Length_append, ← Nat.add_assoc] at h
  obtain ⟨volatiles, hvolatiles, hkinds, hhas⟩ := exists_qualifier isWord_volatile isVolatile h
  obtain ⟨consts, hconsts, hkinds', hhas'⟩ := exists_qualifier isWord_const isConst hvolatiles
  have happend (k : TokenKind) : has k (consts ++ volatiles) = (has k consts || has k volatiles) :=
    List.any_append
  refine ⟨consts ++ volatiles, by simpa using hconsts, fun t ht => ?_, ?_, ?_⟩
  · exact (List.mem_append.1 ht).imp (hkinds' t) (hkinds t)
  · rw [happend, hhas, hhas']
    simp
  · rw [happend, hhas, hhas']
    simp

/-- A star, or one in brackets, with qualifiers before the written form of what is pointed to
spells a pointer. -/
theorem Spells.pointer (h : Spells levels text (·.meaning? = some ty)) {q : Qualifiers}
    (hzero : q.allowZero = false) :
    Spells (levels + 1) (q.text.toList ++ text) (·.meaning? = some (.pointer ty q)) := by
  obtain ⟨isConst, isVolatile, isMany, allowZero⟩ := q
  dsimp only at hzero
  subst hzero
  intro o rest tokens hrest htokens
  have htext : (Qualifiers.text ⟨isConst, isVolatile, isMany, false⟩).toList ++ text =
      (if isMany then ['[', '*', ']'] else ['*']) ++
        (((if isConst then "const" ++ " " else "").toList ++
          (if isVolatile then "volatile" ++ " " else "").toList) ++ text) := by
    cases isConst <;> cases isVolatile <;> cases isMany <;> rfl
  rw [htext] at htokens ⊢
  rw [utf8Length_append, utf8Length_append, ← Nat.add_assoc, ← Nat.add_assoc] at htokens
  obtain ⟨used, e, hlexes, htype, hspan, hmeaning⟩ := h _ rest tokens hrest htokens
  obtain ⟨qualifiers, hqualified, hkinds, rfl, rfl⟩ := exists_qualifiers isConst isVolatile hlexes
  have hmeans (span : Span) : (TypeExpr.pointer (has .constKeyword qualifiers)
      (has .volatileKeyword qualifiers) isMany e span).meaning? =
      some (.pointer ty ⟨has .constKeyword qualifiers, has .volatileKeyword qualifiers, isMany,
        false⟩) := by
    rw [TypeExpr.meaning?, hmeaning]
    rfl
  rw [← List.append_assoc qualifiers used tokens] at hqualified
  rw [List.append_assoc, List.append_assoc, utf8Length_append, utf8Length_append]
  cases isMany with
  | false =>
    simp only [Bool.false_eq_true, if_false, utf8Length_cons, utf8Length_nil, Nat.add_zero,
      ← Nat.add_assoc] at hqualified hspan ⊢
    refine ⟨_ :: (qualifiers ++ used), _, hqualified.sign '*' .star rfl (by decide),
      .pointer rfl hkinds htype, ?_, hmeans _⟩
    rw [TypeExpr.span, Span.merge, hspan, Span.mk.injEq]
    dsimp only
    omega
  | true =>
    simp only [if_true, utf8Length_cons, utf8Length_nil, Nat.add_zero,
      ← Nat.add_assoc] at hqualified hspan ⊢
    have hcloser := hqualified.sign ']' .rightBracket rfl (by decide)
    have hstar := hcloser.sign '*' .star rfl (by decide)
    refine ⟨_ :: _ :: _ :: (qualifiers ++ used), _, hstar.sign '[' .leftBracket rfl (by decide),
      .manyPointer rfl rfl rfl hkinds htype, ?_, hmeans _⟩
    rw [TypeExpr.span, Span.merge, hspan, Span.mk.injEq]
    dsimp only
    omega

theorem Ty.toList_entries_cons (p q : Ty) (params : List Ty) :
    (", ".intercalate ((p :: q :: params).map Ty.text)).toList =
      p.text.toList ++ ',' :: ' ' :: (", ".intercalate ((q :: params).map Ty.text)).toList := by
  rw [List.map_cons, List.map_cons, String.intercalate_cons_cons, String.toList_append,
    String.toList_append, List.append_assoc]
  rfl

/-- Written forms with commas between them, before a closing parenthesis, spell entries. -/
theorem exists_entries {params : List Ty}
    (h : ∀ p ∈ params, Spells levels p.text.toList (·.meaning? = some p)) {o : Nat}
    {cs : List Char} {tokens : List Token}
    (htokens : Lexes (o + utf8Length (", ".intercalate (params.map Ty.text)).toList + ')'.utf8Size)
      cs tokens) :
    ∃ used es, Lexes o ((", ".intercalate (params.map Ty.text)).toList ++ ')' :: cs)
        (used ++ tokens) ∧
      Entries (TypeOf levels) used es ∧ TypeExpr.meanings? es = some params := by
  induction params generalizing o with
  | nil =>
    rw [List.map_nil, String.intercalate_nil] at htokens ⊢
    have hcloser := htokens.sign ')' .rightParen rfl (by decide)
    exact ⟨[_], [], hcloser, .close rfl, rfl⟩
  | cons p params ih =>
    obtain ⟨hp, hparams⟩ := List.forall_mem_cons.1 h
    cases params with
    | nil =>
      rw [List.map_singleton, String.intercalate_singleton] at htokens ⊢
      have hcloser := htokens.sign ')' .rightParen rfl (by decide)
      obtain ⟨used, e, hlexes, htype, -, hmeaning⟩ := hp o _ _ (head_stops rfl cs) hcloser
      refine ⟨used ++ [_], [e], by simpa using hlexes, .last htype rfl, ?_⟩
      simp [TypeExpr.meanings?, hmeaning]
    | cons q params =>
      rw [Ty.toList_entries_cons] at htokens ⊢
      simp only [utf8Length_append, utf8Length_cons, ← Nat.add_assoc] at htokens
      obtain ⟨more, es, hmore, hentries, hmeanings⟩ := ih hparams htokens
      rw [← utf8Length_singleton ' '] at hmore
      have hcomma := (hmore.blank rfl).sign ',' .comma rfl (by decide)
      obtain ⟨used, e, hlexes, htype, -, hmeaning⟩ := hp o _ _ (head_stops rfl _) hcomma
      refine ⟨used ++ _ :: more, e :: es, by simpa using hlexes, .more htype rfl hentries, ?_⟩
      simp [TypeExpr.meanings?, hmeaning, hmeanings]

/-- The written forms of the parameters in parentheses, and that of the result, spell a function
type. -/
theorem Spells.function {params : List Ty}
    (hparams : ∀ p ∈ params, Spells levels p.text.toList (·.meaning? = some p))
    (h : Spells levels text (·.meaning? = some ty)) :
    Spells (levels + 1)
      ("fn".toList ++ '(' :: ((", ".intercalate (params.map Ty.text)).toList ++ ')' :: ' ' :: text))
      (·.meaning? = some (.function params ty .unspecified)) := by
  intro o rest tokens hrest htokens
  simp only [utf8Length_append, utf8Length_cons, ← Nat.add_assoc] at htokens ⊢
  obtain ⟨more, result, hresult, htype, hspan, hmeaning⟩ := h _ rest tokens hrest htokens
  rw [← utf8Length_singleton ' '] at hresult
  obtain ⟨used, es, hused, hentries, hmeanings⟩ := exists_entries hparams (hresult.blank rfl)
  have hopener := hused.sign '(' .leftParen rfl (by decide)
  have hkeyword := hopener.word isWord_fn (head_stops rfl _)
  rw [← List.append_assoc used more tokens] at hkeyword
  have htext : "fn".toList ++ '(' :: ((", ".intercalate (params.map Ty.text)).toList ++
        ')' :: ' ' :: text) ++ rest =
      "fn".toList ++ '(' :: ((", ".intercalate (params.map Ty.text)).toList ++
        ')' :: ' ' :: (text ++ rest)) := by
    simp
  rw [htext]
  refine ⟨_ :: _ :: (used ++ more), _, hkeyword, .function rfl rfl hentries htype, ?_, ?_⟩
  · rw [TypeExpr.span, Span.merge, hspan, Span.mk.injEq]
    dsimp only
    omega
  · dsimp only
    rw [TypeExpr.meaning?, hmeanings, hmeaning]
    rfl

end

/-! ## Types that can be written -/

/-- A type that a written type of at most so many layers can mean. -/
inductive Ty.Written : (levels : Nat) → Ty → Prop where
  | primitive {levels : Nat} {p : Primitive} : p ≠ .undefined → p ≠ .null →
      Written (levels + 1) (.primitive p)
  | int {levels : Nat} (sign : Signedness) {bits : Nat} : 0 < bits → bits ≤ maxWidth →
      Written (levels + 1) (.int sign bits)
  | array {levels : Nat} {element : Ty} {length : Nat} : length < UInt64.size →
      Written levels element → Written (levels + 1) (.array element length)
  | pointer {levels : Nat} {pointee : Ty} {q : Qualifiers} : q.allowZero = false →
      Written levels pointee → Written (levels + 1) (.pointer pointee q)
  | function {levels : Nat} {params : List Ty} {result : Ty} :
      (∀ p ∈ params, Written levels p) → Written levels result →
      Written (levels + 1) (.function params result .unspecified)

theorem Ty.toList_text_array (element : Ty) (length : Nat) : (Ty.array element length).text.toList =
    '[' :: ((toString length).toList ++ ']' :: element.text.toList) := by
  rw [Ty.text, String.toList_append, String.toList_append, String.toList_append]
  simp

theorem Ty.toList_text_function (params : List Ty) (result : Ty) (how : CallingConvention) :
    (Ty.function params result how).text.toList =
      "fn".toList ++ '(' :: ((", ".intercalate (params.map Ty.text)).toList ++
        ')' :: ' ' :: result.text.toList) := by
  rw [Ty.text, String.toList_append, String.toList_append, String.toList_append]
  simp

/-- The written form of a type that can be written spells it. -/
theorem Ty.Written.spells {levels : Nat} {ty : Ty} (h : ty.Written levels) :
    Spells levels ty.text.toList (·.meaning? = some ty) := by
  induction h with
  | @primitive levels p hundefined hnull =>
    rw [Ty.text]
    exact spells_name (isWord_spelling hundefined hnull) (ofName?_spelling p)
  | int sign hpos hle =>
    rw [Ty.text]
    exact spells_name (isWord_int sign _) (ofName?_int sign hpos hle)
  | array hlength _ ih =>
    rw [Ty.toList_text_array]
    exact ih.array hlength
  | pointer hzero _ ih =>
    rw [Ty.text, String.toList_append]
    exact ih.pointer hzero
  | function _ _ ihparams ih =>
    rw [Ty.toList_text_function]
    exact Spells.function ihparams ih

/-! ## What a written type means -/

/-- A name that denotes a type that can be written. -/
theorem written_of_ofName? {name : String} {type : NamedType} (hname : '@' ∉ name.toList.head?)
    (h : NamedType.ofName? name = .ok (some type)) (levels : Nat) :
    type.toTy.Written (levels + 1) := by
  unfold NamedType.ofName? at h
  split at h
  · rename_i p hp
    cases h
    unfold Primitive.ofSpelling? at hp
    have hspelling := List.find?_some hp
    simp only [beq_iff_eq] at hspelling
    subst hspelling
    refine .primitive ?_ ?_
    · rintro rfl
      exact hname rfl
    · rintro rfl
      exact hname rfl
  · split at h
    · split at h
      · rename_i s _
        cases hwidth : widthFrom 0 _ with
        | error e => rw [hwidth] at h; cases h
        | ok bits =>
          rw [hwidth] at h
          cases h
          obtain ⟨hpos, hle⟩ := bounds_of_widthFrom (by decide) hwidth
          exact .int s hpos hle
      · cases h
    · cases h

theorem meanings?_cons_eq_some {e : TypeExpr} {es : List TypeExpr} {tys : List Ty} :
    TypeExpr.meanings? (e :: es) = some tys ↔
      ∃ ty more, tys = ty :: more ∧ e.meaning? = some ty ∧ TypeExpr.meanings? es = some more := by
  rw [TypeExpr.meanings?]
  cases e.meaning? <;> cases TypeExpr.meanings? es <;> simp [eq_comm]

theorem Grammar.Entries.written {P : List Token → TypeExpr → Prop} {levels : Nat}
    {used : List Token} {es : List TypeExpr} {tys : List Ty} (h : Entries P used es)
    (hP : ∀ part e ty, (∀ t ∈ part, t ∈ used) → P part e → e.meaning? = some ty →
      ty.Written levels)
    (hmeanings : TypeExpr.meanings? es = some tys) : ∀ ty ∈ tys, ty.Written levels := by
  induction h generalizing tys with
  | close =>
    cases hmeanings
    simp
  | @last used e closer he _ =>
    obtain ⟨ty, more, rfl, hmeaning, hmore⟩ := meanings?_cons_eq_some.1 hmeanings
    cases hmore
    have hty := hP used e ty (fun t ht => List.mem_append_left _ ht) he hmeaning
    exact List.forall_mem_singleton.2 hty
  | @more used rest e es comma he _ _ ih =>
    obtain ⟨ty, more, rfl, hmeaning, hmore⟩ := meanings?_cons_eq_some.1 hmeanings
    have hty := hP used e ty (fun t ht => List.mem_append_left _ ht) he hmeaning
    refine List.forall_mem_cons.2 ⟨hty, ih (fun part e ty hpart => ?_) hmore⟩
    exact hP part e ty fun t ht => List.mem_append_right _ (List.mem_cons_of_mem _ (hpart t ht))

theorem lt_size_of_literalValue? {text : String} {n : Nat} (h : literalValue? text = some n) :
    n < UInt64.size := by
  have hvalue : ∀ parts : Nat × List Char,
      (if parts.2.isEmpty || UInt64.size ≤ numeral parts.1 parts.2 then none
        else some (numeral parts.1 parts.2)) = some n → n < UInt64.size := by
    intro parts hparts
    split at hparts
    · cases hparts
    · rename_i hsize
      cases hparts
      simp only [Bool.or_eq_true, decide_eq_true_eq, not_or, not_le] at hsize
      exact hsize.2
  exact hvalue _ h

/-- What a written type means can be written. -/
theorem Grammar.TypeOf.written {levels : Nat} {used : List Token} {e : TypeExpr} {ty : Ty}
    (h : TypeOf levels used e)
    (hnames : ∀ t ∈ used, t.kind = .identifier → '@' ∉ t.text.toList.head?)
    (hmeaning : e.meaning? = some ty) : ty.Written levels := by
  induction levels generalizing used e ty with
  | zero => exact h.elim
  | succ levels ih =>
    cases h with
    | @named t hkind =>
      rw [TypeExpr.meaning?] at hmeaning
      have hname := hnames t (List.mem_singleton_self t) hkind
      rcases hof : NamedType.ofName? t.text with error | _ | type
      · rw [hof] at hmeaning
        cases hmeaning
      · rw [hof] at hmeaning
        cases hmeaning
      · rw [hof] at hmeaning
        cases hmeaning
        exact written_of_ofName? hname hof levels
    | @pointer star qualifiers used pointee _ _ hused =>
      rw [TypeExpr.meaning?] at hmeaning
      obtain ⟨pointed, hpointee, rfl⟩ := Option.map_eq_some_iff.1 hmeaning
      refine .pointer rfl (ih hused (fun t ht => hnames t ?_) hpointee)
      simp [ht]
    | @manyPointer opener star closer qualifiers used pointee _ _ _ _ hused =>
      rw [TypeExpr.meaning?] at hmeaning
      obtain ⟨pointed, hpointee, rfl⟩ := Option.map_eq_some_iff.1 hmeaning
      refine .pointer rfl (ih hused (fun t ht => hnames t ?_) hpointee)
      simp [ht]
    | @array opener literal closer length used element _ _ hliteral _ hused =>
      rw [TypeExpr.meaning?] at hmeaning
      obtain ⟨elements, helement, rfl⟩ := Option.map_eq_some_iff.1 hmeaning
      refine .array (lt_size_of_literalValue? hliteral)
        (ih hused (fun t ht => hnames t ?_) helement)
      simp [ht]
    | @function keyword opener used more params result _ _ hparams hmore =>
      rw [TypeExpr.meaning?] at hmeaning
      obtain ⟨tys, htys, hrest⟩ := Option.bind_eq_some_iff.1 hmeaning
      obtain ⟨ty, hresult, rfl⟩ := Option.map_eq_some_iff.1 hrest
      refine .function (hparams.written (fun part e ty hpart he =>
        ih he fun t ht => hnames t ?_) htys) (ih hmore (fun t ht => hnames t ?_) hresult)
      · simp [hpart t ht]
      · simp [ht]

/-- The names among the tokens of a text are words. -/
theorem Lexes.name_head {o : Nat} {cs : List Char} {tokens : List Token} (h : Lexes o cs tokens) :
    ∀ t ∈ tokens, t.kind = .identifier → '@' ∉ t.text.toList.head? := by
  induction h with
  | nil => simp
  | gap _ _ ih => exact ih
  | @token o c written rest kind tokens hscan _ ih =>
    refine List.forall_mem_cons.2 ⟨fun hkind => ?_, ih⟩
    dsimp only at hkind
    subst hkind
    have hstart := (scan_identifier hscan).1
    rw [String.toList_ofList]
    intro hat
    cases hat
    exact absurd hstart (by decide)

end IncrementalBuild
