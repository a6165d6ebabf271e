import IncrementalBuild.Proofs.Types.Canonical
import IncrementalBuild.Proofs.Types.Spelling

/-!
# Written forms tell types apart

A text that begins with the written form of a type determines the type, but for the calling
conventions in it, and the rest of the text, as long as the rest does not go on the last word of
the type. So resident types with one written form are one type, but for calling conventions.
-/

set_option autoImplicit false

namespace IncrementalBuild

open Lexeme

/-- The type without what its written form leaves out: every function type in it gets the
calling convention that nobody asked for. -/
def Ty.withoutConventions : Ty → Ty
  | .primitive p => .primitive p
  | .int sign bits => .int sign bits
  | .array element length => .array element.withoutConventions length
  | .pointer pointee q => .pointer pointee.withoutConventions q
  | .function params result _ =>
    .function (params.map withoutConventions) result.withoutConventions .unspecified

/-! ## How written forms start -/

/-- What a text starts with: the name of a type or another sort of type, or none. -/
inductive Opening where
  | name
  | array
  | pointer
  | function
  | other
  deriving DecidableEq

/-- What a text starts with. No name of a type starts like a qualifier. -/
def Opening.of : List Char → Opening
  | '[' :: '*' :: _ => .pointer
  | '[' :: _ => .array
  | '*' :: _ => .pointer
  | 'f' :: _ => .function
  | 'a' :: _ => .other
  | 'c' :: 'o' :: 'n' :: _ => .other
  | 'v' :: 'o' :: 'l' :: _ => .other
  | ')' :: _ => .other
  | _ => .name

/-- The sort of a type. -/
def Ty.opening : Ty → Opening
  | .primitive _ => .name
  | .int .. => .name
  | .array .. => .array
  | .pointer .. => .pointer
  | .function .. => .function

theorem Qualifiers.toList_text (q : Qualifiers) :
    q.text.toList = (if q.isMany then ['[', '*', ']'] else ['*']) ++
      ((if q.allowZero then "allowzero ".toList else []) ++
        ((if q.isConst then "const ".toList else []) ++
          (if q.isVolatile then "volatile ".toList else []))) := by
  obtain ⟨isConst, isVolatile, isMany, allowZero⟩ := q
  cases isConst <;> cases isVolatile <;> cases isMany <;> cases allowZero <;> rfl

/-- The written form of a type shows its sort. -/
theorem Opening.of_text (t : Ty) (rest : List Char) :
    Opening.of (t.text.toList ++ rest) = t.opening := by
  cases t with
  | primitive p =>
    rw [Ty.text]
    cases p <;> rfl
  | int sign bits =>
    rw [Ty.text, String.toList_append]
    cases sign <;> rfl
  | array element length =>
    obtain ⟨c, cs, hcs, hc⟩ := exists_toString length
    have hstar : c ≠ '*' := by
      rintro rfl
      exact absurd hc (by decide)
    rw [Ty.toList_text_array, hcs]
    simp [Opening.of, Ty.opening, hstar]
  | pointer pointee q =>
    rw [Ty.text, String.toList_append, Qualifiers.toList_text, List.append_assoc,
      List.append_assoc]
    generalize _ ++ (pointee.text.toList ++ rest) = more
    cases q.isMany <;> rfl
  | function params result how =>
    rw [Ty.toList_text_function]
    rfl

/-! ## Names -/

/-- Names that no character goes on are as long as each other. -/
theorem IsWord.append_inj {kind kind' : TokenKind} {w w' : String} {rest rest' : List Char}
    (hw : IsWord kind w) (hw' : IsWord kind' w')
    (hrest : ∀ d ∈ rest.head?, continuesWord d = false)
    (hrest' : ∀ d ∈ rest'.head?, continuesWord d = false)
    (h : w.toList ++ rest = w'.toList ++ rest') : w = w' ∧ rest = rest' := by
  obtain ⟨c, cs, hcs, -, hword⟩ := hw.letters
  obtain ⟨c', cs', hcs', -, hword'⟩ := hw'.letters
  rw [hcs, hcs', List.cons_append, List.cons_append, List.cons.injEq] at h
  obtain ⟨rfl, h⟩ := h
  have hrun := congrArg (List.takeWhile continuesWord) h
  rw [takeWhile_eq_left hword hrest, takeWhile_eq_left hword' hrest'] at hrun
  subst hrun
  exact ⟨String.toList_inj.1 (hcs.trans hcs'.symm), List.append_cancel_left h⟩

/-- The name of a named type. -/
def NamedType.text : NamedType → String
  | .primitive p => p.spelling
  | .int sign bits => sign.letter ++ toString bits

/-- The name of a type is a word, or that of one of two types that nobody can write. -/
theorem NamedType.isWord_text (n : NamedType) :
    IsWord .identifier n.text ∨ n = .primitive .undefined ∨ n = .primitive .null := by
  cases n with
  | primitive p =>
    by_cases hundefined : p = .undefined
    · exact .inr (.inl (by rw [hundefined]))
    by_cases hnull : p = .null
    · exact .inr (.inr (by rw [hnull]))
    · exact .inl (isWord_spelling hundefined hnull)
  | int sign bits => exact .inl (isWord_int sign bits)

/-- A primitive is not named like an integer type. -/
theorem spelling_ne_int (p : Primitive) (sign : Signedness) (bits : Nat) :
    p.spelling ≠ sign.letter ++ toString bits := by
  intro h
  obtain ⟨letter, htext, -, -⟩ := exists_letter sign bits
  obtain ⟨c, cs, hcs, hc⟩ := exists_toString bits
  have hdigit := p.second_not_digit
  rw [h, htext, hcs] at hdigit
  exact absurd hc (by simpa using hdigit)

/-- Named types are told apart by their names. -/
theorem NamedType.text_inj {n m : NamedType} (h : n.text = m.text) : n = m := by
  cases n with
  | primitive p =>
    cases m with
    | primitive q =>
      have hname := congrArg NamedType.ofName? h
      rw [text, text, ofName?_spelling, ofName?_spelling] at hname
      simpa using hname
    | int sign bits => exact absurd h (spelling_ne_int p sign bits)
  | int sign bits =>
    cases m with
    | primitive q => exact absurd h.symm (spelling_ne_int q sign bits)
    | int sign' bits' =>
      obtain ⟨letter, htext, -, hsign⟩ := exists_letter sign bits
      obtain ⟨letter', htext', -, hsign'⟩ := exists_letter sign' bits'
      have hcons := congrArg String.toList h
      rw [text, text, htext, htext', List.cons.injEq] at hcons
      obtain ⟨rfl, hbits⟩ := hcons
      rw [hsign] at hsign'
      rw [Option.some.inj hsign', digits_inj hbits]

/-- A text that begins with the name of a type determines the type and the rest. -/
theorem NamedType.append_inj {n m : NamedType} {rest rest' : List Char}
    (hrest : ∀ d ∈ rest.head?, continuesWord d = false)
    (hrest' : ∀ d ∈ rest'.head?, continuesWord d = false)
    (h : n.text.toList ++ rest = m.text.toList ++ rest') : n = m ∧ rest = rest' := by
  -- the names that are no words start with a character that no word starts with
  have hword {k : NamedType} (hk : IsWord .identifier k.text) (cs : List Char) :
      (k.text.toList ++ cs).head? ≠ some '@' := by
    obtain ⟨c, w, hw, hc, -⟩ := hk.letters
    rw [hw]
    intro hat
    cases hat
    exact absurd hc (by decide)
  rcases n.isWord_text with hn | hn <;> rcases m.isWord_text with hm | hm
  · obtain ⟨htext, hrests⟩ := hn.append_inj hm hrest hrest' h
    exact ⟨text_inj htext, hrests⟩
  · refine absurd ?_ (hword hn rest)
    rw [h]
    rcases hm with rfl | rfl <;> rfl
  · refine absurd ?_ (hword hm rest')
    rw [← h]
    rcases hn with rfl | rfl <;> rfl
  · rcases hn with rfl | rfl <;> rcases hm with rfl | rfl
    · exact ⟨rfl, List.append_cancel_left h⟩
    · cases h
    · cases h
    · exact ⟨rfl, List.append_cancel_left h⟩

/-! ## Qualifiers -/

/-- Whether a mark stands before a text that does not start like it can be told. -/
theorem mark_append_inj {mark cs cs' : List Char} {b b' : Bool} (hcs : ¬mark <+: cs)
    (hcs' : ¬mark <+: cs')
    (h : (if b then mark else []) ++ cs = (if b' then mark else []) ++ cs') :
    b = b' ∧ cs = cs' := by
  cases b <;> cases b'
  · exact ⟨rfl, h⟩
  · exact absurd ⟨cs', h.symm⟩ hcs
  · exact absurd ⟨cs, h⟩ hcs'
  · exact ⟨rfl, List.append_cancel_left h⟩

/-- What starts no type starts no written form. -/
theorem Ty.not_prefix_text (t : Ty) (rest : List Char) {mark : List Char}
    (hmark : ∀ more, Opening.of (mark ++ more) = .other) :
    ¬mark <+: t.text.toList ++ rest := by
  rintro ⟨more, hmore⟩
  have hopening := Opening.of_text t rest
  rw [← hmore, hmark] at hopening
  cases t <;> cases hopening

/-- A text that begins with the qualifiers of a pointer and a written form determines the
qualifiers. -/
theorem Qualifiers.append_inj {q q' : Qualifiers} {t u : Ty} {rest rest' : List Char}
    (h : q.text.toList ++ (t.text.toList ++ rest) = q'.text.toList ++ (u.text.toList ++ rest')) :
    q = q' ∧ t.text.toList ++ rest = u.text.toList ++ rest' := by
  obtain ⟨isConst, isVolatile, isMany, allowZero⟩ := q
  obtain ⟨isConst', isVolatile', isMany', allowZero'⟩ := q'
  rw [toList_text, toList_text] at h
  simp only [List.append_assoc] at h
  have hvolatile (t : Ty) (rest : List Char) : ¬"volatile ".toList <+: t.text.toList ++ rest :=
    t.not_prefix_text rest fun _ => rfl
  have hconst (b : Bool) (t : Ty) (rest : List Char) : ¬"const ".toList <+:
      (if b then "volatile ".toList else []) ++ (t.text.toList ++ rest) := by
    cases b with
    | false => exact t.not_prefix_text rest fun _ => rfl
    | true =>
      rintro ⟨more, hmore⟩
      cases hmore
  have hzero (b b' : Bool) (t : Ty) (rest : List Char) : ¬"allowzero ".toList <+:
      (if b then "const ".toList else []) ++
        ((if b' then "volatile ".toList else []) ++ (t.text.toList ++ rest)) := by
    cases b with
    | false =>
      cases b' with
      | false => exact t.not_prefix_text rest fun _ => rfl
      | true =>
        rintro ⟨more, hmore⟩
        cases hmore
    | true =>
      rintro ⟨more, hmore⟩
      cases hmore
  have hstar : isMany = isMany' := by
    cases isMany <;> cases isMany'
    · rfl
    · cases h
    · cases h
    · rfl
  subst hstar
  obtain ⟨rfl, hmore⟩ := mark_append_inj (hzero _ _ _ _) (hzero _ _ _ _)
    (List.append_cancel_left h)
  obtain ⟨rfl, hlast⟩ := mark_append_inj (hconst _ _ _) (hconst _ _ _) hmore
  obtain ⟨rfl, hforms⟩ := mark_append_inj (hvolatile _ _) (hvolatile _ _) hlast
  exact ⟨rfl, hforms⟩

/-! ## Types -/

/-- Digits before a closing bracket end at it. -/
theorem digits_append_inj {m n : Nat} {cs cs' : List Char}
    (h : (toString m).toList ++ ']' :: cs = (toString n).toList ++ ']' :: cs') :
    m = n ∧ cs = cs' := by
  have hrun (k : Nat) (cs : List Char) :
      ((toString k).toList ++ ']' :: cs).takeWhile (·.isDigit) = (toString k).toList := by
    refine takeWhile_eq_left (fun d hd => isDigit_of_mem_toString hd) fun d hd => ?_
    cases hd
    rfl
  have hdigits := congrArg (List.takeWhile (·.isDigit)) h
  rw [hrun, hrun] at hdigits
  rw [hdigits] at h
  exact ⟨digits_inj hdigits, (List.cons.inj (List.append_cancel_left h)).2⟩

/-- What comes after a parameter in a written form. -/
def Ty.laterEntries : List Ty → List Char
  | [] => []
  | p :: params => ',' :: ' ' :: (", ".intercalate ((p :: params).map Ty.text)).toList

theorem Ty.toList_entries (p : Ty) (params : List Ty) :
    (", ".intercalate ((p :: params).map Ty.text)).toList =
      p.text.toList ++ laterEntries params := by
  cases params with
  | nil => rw [List.map_singleton, String.intercalate_singleton, laterEntries, List.append_nil]
  | cons q params => rw [toList_entries_cons, laterEntries]

theorem Ty.laterEntries_stops (params : List Ty) (rest : List Char) :
    ∀ d ∈ (laterEntries params ++ ')' :: rest).head?, continuesWord d = false := by
  cases params with
  | nil => exact head_stops rfl _
  | cons p params => exact head_stops rfl _

theorem Ty.opening_eq {t u : Ty} {rest rest' : List Char}
    (h : t.text.toList ++ rest = u.text.toList ++ rest') : t.opening = u.opening := by
  rw [← Opening.of_text t rest, h, Opening.of_text]

theorem NamedType.text_toTy (n : NamedType) : n.toTy.text = n.text := by
  cases n <;> rw [toTy, Ty.text, text]

theorem Ty.exists_named {t : Ty} (h : t.opening = .name) : ∃ n : NamedType, t = n.toTy := by
  cases t with
  | primitive p => exact ⟨.primitive p, rfl⟩
  | int sign bits => exact ⟨.int sign bits, rfl⟩
  | _ => cases h

theorem Ty.named_append_inj {n : NamedType} {u : Ty} {rest rest' : List Char}
    (hrest : ∀ d ∈ rest.head?, continuesWord d = false)
    (hrest' : ∀ d ∈ rest'.head?, continuesWord d = false)
    (h : n.toTy.text.toList ++ rest = u.text.toList ++ rest') : n.toTy = u ∧ rest = rest' := by
  have hname : n.toTy.opening = .name := by cases n <;> rfl
  obtain ⟨m, rfl⟩ := exists_named ((opening_eq h).symm.trans hname)
  rw [n.text_toTy, m.text_toTy] at h
  obtain ⟨rfl, hrests⟩ := NamedType.append_inj hrest hrest' h
  exact ⟨rfl, hrests⟩

mutual

/-- A text that begins with a written form determines the type, but for its calling conventions,
and the rest, if that does not go on a word. -/
theorem Ty.append_inj : ∀ (t u : Ty) {rest rest' : List Char},
    (∀ d ∈ rest.head?, continuesWord d = false) → (∀ d ∈ rest'.head?, continuesWord d = false) →
    t.text.toList ++ rest = u.text.toList ++ rest' →
    t.withoutConventions = u.withoutConventions ∧ rest = rest'
  | .primitive p, u, rest, rest', hrest, hrest', h => by
    obtain ⟨rfl, hrests⟩ := named_append_inj (n := .primitive p) hrest hrest' h
    exact ⟨rfl, hrests⟩
  | .int sign bits, u, rest, rest', hrest, hrest', h => by
    obtain ⟨rfl, hrests⟩ := named_append_inj (n := .int sign bits) hrest hrest' h
    exact ⟨rfl, hrests⟩
  | .array element length, u, rest, rest', hrest, hrest', h => by
    have hopening := opening_eq h
    cases u with
    | array element' length' =>
      rw [toList_text_array, toList_text_array] at h
      simp only [List.cons_append, List.append_assoc, List.cons.injEq, true_and] at h
      obtain ⟨rfl, helements⟩ := digits_append_inj h
      obtain ⟨helement, hrests⟩ := element.append_inj element' hrest hrest' helements
      exact ⟨by rw [withoutConventions, withoutConventions, helement], hrests⟩
    | _ => cases hopening
  | .pointer pointee q, u, rest, rest', hrest, hrest', h => by
    have hopening := opening_eq h
    cases u with
    | pointer pointee' q' =>
      rw [Ty.text, Ty.text, String.toList_append, String.toList_append, List.append_assoc,
        List.append_assoc] at h
      obtain ⟨rfl, hpointees⟩ := Qualifiers.append_inj h
      obtain ⟨hpointee, hrests⟩ := pointee.append_inj pointee' hrest hrest' hpointees
      exact ⟨by rw [withoutConventions, withoutConventions, hpointee], hrests⟩
    | _ => cases hopening
  | .function params result how, u, rest, rest', hrest, hrest', h => by
    have hopening := opening_eq h
    cases u with
    | function params' result' how' =>
      rw [toList_text_function, toList_text_function] at h
      simp only [List.append_assoc, List.cons_append, List.append_cancel_left_eq,
        List.cons.injEq, true_and] at h
      obtain ⟨hparams, hresults⟩ := entries_append_inj params params' h
      obtain ⟨hresult, hrests⟩ := result.append_inj result' hrest hrest' (List.cons.inj hresults).2
      exact ⟨by rw [withoutConventions, withoutConventions, hparams, hresult], hrests⟩
    | _ => cases hopening

/-- Parameters up to the closing parenthesis are determined as types are. -/
theorem Ty.entries_append_inj : ∀ (ps qs : List Ty) {rest rest' : List Char},
    (", ".intercalate (ps.map Ty.text)).toList ++ ')' :: rest =
      (", ".intercalate (qs.map Ty.text)).toList ++ ')' :: rest' →
    ps.map withoutConventions = qs.map withoutConventions ∧ rest = rest'
  | [], [], rest, rest', h => ⟨rfl, (List.cons.inj h).2⟩
  | [], q :: qs, rest, rest', h => by
    rw [toList_entries, List.append_assoc] at h
    have hclosing := q.not_prefix_text (laterEntries qs ++ ')' :: rest') fun more =>
      (rfl : Opening.of ([')'] ++ more) = .other)
    exact absurd ⟨rest, h⟩ hclosing
  | p :: ps, [], rest, rest', h => by
    rw [toList_entries, List.append_assoc] at h
    have hclosing := p.not_prefix_text (laterEntries ps ++ ')' :: rest) fun more =>
      (rfl : Opening.of ([')'] ++ more) = .other)
    exact absurd ⟨rest', h.symm⟩ hclosing
  | p :: ps, q :: qs, rest, rest', h => by
    rw [toList_entries, toList_entries, List.append_assoc, List.append_assoc] at h
    obtain ⟨hentry, hlater⟩ :=
      p.append_inj q (laterEntries_stops ps rest) (laterEntries_stops qs rest') h
    cases ps with
    | nil =>
      cases qs with
      | nil =>
        exact ⟨by rw [List.map_singleton, List.map_singleton, hentry], (List.cons.inj hlater).2⟩
      | cons q' qs => cases hlater
    | cons p' ps =>
      cases qs with
      | nil => cases hlater
      | cons q' qs =>
        obtain ⟨hentries, hrests⟩ := entries_append_inj (p' :: ps) (q' :: qs)
          (List.cons.inj (List.cons.inj hlater).2).2
        exact ⟨by rw [List.map_cons, List.map_cons (l := q' :: qs), hentry, hentries], hrests⟩

end

/-- Written forms are equal exactly for types that are equal but for calling conventions. -/
theorem Ty.text_eq_iff (t u : Ty) :
    t.text = u.text ↔ t.withoutConventions = u.withoutConventions := by
  have hplain (t : Ty) : t.withoutConventions.text = t.text := by
    fun_induction withoutConventions t with
    | case1 p => rfl
    | case2 sign bits => rfl
    | case3 element length ih => rw [text, text, ih]
    | case4 pointee q ih => rw [text, text, ih]
    | case5 params result how ihparams ihresult =>
      have htexts : (params.map withoutConventions).map text = params.map text := by
        rw [List.map_map]
        exact List.map_congr_left ihparams
      rw [text, text, ihresult, htexts]
  constructor
  · intro h
    have htexts : t.text.toList ++ [] = u.text.toList ++ [] := by rw [h]
    exact (append_inj t u (by simp) (by simp) htexts).1
  · intro h
    rw [← hplain t, h, hplain]

namespace TypeClient

/-- After any run of requests, every resident object, and so everything a client has a handle
of, denotes a type, and two of them have one written form exactly if their types are equal but
for the calling conventions of the functions in them. -/
theorem texts_tell_types_apart (requests : List TypeRequest) :
    (∀ a ∈ (run requests).handles, a ∈ (run requests).store.ids) ∧
    ∀ a ∈ (run requests).store.ids, ∀ b ∈ (run requests).store.ids,
      ∃ t u, (run requests).store.denote? a = some t ∧ (run requests).store.denote? b = some u ∧
        ((run requests).store.text a = (run requests).store.text b ↔
          t.withoutConventions = u.withoutConventions) := by
  have hsound := sound_run requests
  refine ⟨fun a ha => hsound.mem_ids ha, fun a ha b hb => ?_⟩
  obtain ⟨t, ht⟩ := Option.isSome_iff_exists.1 (TypeStore.Sound.denote?_isSome hsound ha)
  obtain ⟨u, hu⟩ := Option.isSome_iff_exists.1 (TypeStore.Sound.denote?_isSome hsound hb)
  refine ⟨t, u, ht, hu, ?_⟩
  rw [TypeStore.text, TypeStore.text, ht, hu]
  exact t.text_eq_iff u

end TypeClient

end IncrementalBuild
