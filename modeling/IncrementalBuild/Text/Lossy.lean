import IncrementalBuild.Source.Text

/-!
# Bytes that may not be text

Reading bytes as text when some of them are not. What cannot belong to a character is
shown as a replacement character: one for each byte that starts none, and one for each
character that breaks off, as far as it goes.
-/

set_option autoImplicit false

namespace IncrementalBuild

/-- A range of byte values. -/
structure ByteRange where
  low : UInt8
  high : UInt8

/-- Whether a byte lies in a range. -/
def ByteRange.contains (r : ByteRange) (b : UInt8) : Bool := r.low ≤ b && b ≤ r.high

/-- Any byte that goes on with a character. -/
def followUp : ByteRange := ⟨0x80, 0xbf⟩

/-- The bytes that may follow the first byte of a character, one range for each; none if no
character starts with that byte. -/
def followRanges? (first : UInt8) : Option (List ByteRange) :=
  if first < 0x80 then some []
  else if first < 0xc2 then none
  else if first < 0xe0 then some [followUp]
  else if first = 0xe0 then some [⟨0xa0, 0xbf⟩, followUp]
  else if first = 0xed then some [⟨0x80, 0x9f⟩, followUp]
  else if first < 0xf0 then some [followUp, followUp]
  else if first = 0xf0 then some [⟨0x90, 0xbf⟩, followUp, followUp]
  else if first < 0xf4 then some [followUp, followUp, followUp]
  else if first = 0xf4 then some [⟨0x80, 0x8f⟩, followUp, followUp]
  else none

/-- The bytes at the front that lie in the given ranges, one after the other. -/
def takeRanges : List ByteRange → Bytes → Bytes
  | r :: rs, b :: bs => if r.contains b then b :: takeRanges rs bs else []
  | _, _ => []

/-- The character of a first byte and the bytes that follow it. -/
def charOf (first : UInt8) (more : Bytes) : Char :=
  let bits := match more.length with
    | 0 => first.toNat
    | 1 => first.toNat % 32
    | 2 => first.toNat % 16
    | _ => first.toNat % 8
  Char.ofNat (more.foldl (fun n b => n * 64 + b.toNat % 64) bits)

/-- What stands for bytes that are no character. -/
def replacement : Char := '\ufffd'

/-- Reads bytes as characters, with replacements for what is not. -/
def decodeLossy : Bytes → List Char
  | [] => []
  | first :: rest =>
    match followRanges? first with
    | none => replacement :: decodeLossy rest
    | some ranges =>
      let more := takeRanges ranges rest
      let c := if more.length = ranges.length then charOf first more else replacement
      c :: decodeLossy (rest.drop more.length)
termination_by bytes => bytes.length
decreasing_by all_goals (simp only [List.length_drop, List.length_cons]; omega)

end IncrementalBuild
