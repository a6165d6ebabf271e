import IncrementalBuild.Source.Text

/-!
# Bytes and characters of one text

A text is its characters, and its bytes are theirs one after another. So a span whose
ends are sums of whole characters covers the bytes of the characters between, and bytes
that are those of a text are read back as that text.
-/

set_option autoImplicit false

namespace IncrementalBuild

variable {cs ds : List Char}

theorem utf8_append : utf8 (cs ++ ds) = utf8 cs ++ utf8 ds := List.flatMap_append

theorem utf8Length_eq (cs : List Char) : utf8Length cs = (utf8 cs).length := by
  have hfold : ∀ n, cs.foldl (fun n c => n + c.utf8Size) n = n + (utf8 cs).length := by
    induction cs with
    | nil => exact fun n => rfl
    | cons c cs ih =>
      intro n
      rw [List.foldl_cons, ih, utf8, utf8, List.flatMap_cons, List.length_append,
        String.length_utf8EncodeChar, Nat.add_assoc]
  rw [utf8Length, hfold, Nat.zero_add]

theorem utf8Length_append : utf8Length (cs ++ ds) = utf8Length cs + utf8Length ds := by
  rw [utf8Length_eq, utf8Length_eq, utf8Length_eq, utf8_append, List.length_append]

theorem utf8Length_nil : utf8Length [] = 0 := rfl

theorem utf8Length_cons (c : Char) (cs : List Char) :
    utf8Length (c :: cs) = c.utf8Size + utf8Length cs := by
  rw [utf8Length_eq, utf8Length_eq, utf8, utf8, List.flatMap_cons, List.length_append,
    String.length_utf8EncodeChar]

theorem utf8Length_singleton (c : Char) : utf8Length [c] = c.utf8Size := utf8Length_cons c []

theorem utf8Length_cons_pos (c : Char) (cs : List Char) : 0 < utf8Length (c :: cs) := by
  have hpos := c.utf8Size_pos
  rw [utf8Length_cons]
  omega

/-- A text is cut at a number of bytes in one way. -/
theorem append_inj_of_utf8Length {a b a' b' : List Char} (h : a ++ b = a' ++ b')
    (hlength : utf8Length a = utf8Length a') : a = a' ∧ b = b' := by
  rcases List.append_eq_append_iff.1 h with ⟨c, rfl, rfl⟩ | ⟨c, rfl, rfl⟩
  all_goals
    cases c with
    | nil => simp
    | cons d c =>
      have hpos := utf8Length_cons_pos d c
      rw [utf8Length_append] at hlength
      omega

theorem bytesOf_ofList (cs : List Char) : bytesOf (String.ofList cs) = utf8 cs := by
  rw [bytesOf, String.toList_ofList]

/-- A span from character to character covers the bytes of the characters between. -/
theorem slice_utf8 (before cs after : List Char) :
    slice (utf8 (before ++ (cs ++ after)))
      ⟨utf8Length before, utf8Length before + utf8Length cs⟩ = utf8 cs := by
  rw [slice, if_pos]
  · simp only [utf8Length_eq, utf8_append, Nat.add_sub_cancel_left]
    rw [List.drop_left, List.take_left]
  · simp only [utf8Length_eq, utf8_append, List.length_append]
    omega

theorem toByteArray_eq (text : String) :
    (⟨(bytesOf text).toArray⟩ : ByteArray) = text.toByteArray := by
  refine ByteArray.ext ?_
  rw [← String.utf8Encode_toList, List.utf8Encode, List.data_toByteArray]
  rfl

theorem length_bytesOf (text : String) : (bytesOf text).length = text.utf8ByteSize :=
  congrArg ByteArray.size (toByteArray_eq text)

theorem utf8Length_toList (text : String) : utf8Length text.toList = text.utf8ByteSize := by
  rw [utf8Length_eq, ← length_bytesOf, bytesOf]

/-- The bytes of a text are read back as that text. -/
theorem decode_bytesOf (text : String) : decode ⟨(bytesOf text).toArray⟩ = .ok text := by
  rw [decode, toByteArray_eq, String.fromUTF8?, dif_pos text.isValidUTF8]
  rfl

end IncrementalBuild
