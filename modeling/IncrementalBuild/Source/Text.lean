import IncrementalBuild.Source.Span

/-!
# Bytes of a source text, and positions in them

A source text is a `String`; spans count its UTF-8 bytes. `slice` reads a span,
`positionAt` turns an offset into the line and column a reader counts, and
`decode` goes from bytes to text or names the first byte that is not UTF-8.
-/

set_option autoImplicit false

namespace IncrementalBuild

/-- A run of bytes. -/
abbrev Bytes : Type := List UInt8

/-- The UTF-8 bytes of a list of characters, one character after another. -/
def utf8 (cs : List Char) : Bytes := cs.flatMap String.utf8EncodeChar

/-- The number of UTF-8 bytes of a list of characters. -/
def utf8Length (cs : List Char) : Nat := cs.foldl (fun n c => n + c.utf8Size) 0

/-- The UTF-8 bytes of a text. -/
def bytesOf (text : String) : Bytes := utf8 text.toList

/-- The byte that ends a line. -/
def newline : UInt8 := 10

/-- The bytes a span covers; a span that reaches past the end, or whose ends are
swapped, covers none. -/
def slice (bytes : Bytes) (s : Span) : Bytes :=
  if s.start ≤ s.stop ∧ s.stop ≤ bytes.length then
    (bytes.drop s.start).take (s.stop - s.start)
  else []

/-- A place in a text as a reader counts it: lines from one, columns in bytes from one. -/
structure Position where
  line : Nat
  column : Nat
  deriving DecidableEq

namespace Position

/-- The position before the first byte. -/
def first : Position := ⟨1, 1⟩

/-- The position after reading `before`: one line more than it has newlines, one
column more than it has bytes since the last of them. -/
def after (before : Bytes) : Position where
  line := before.count newline + 1
  column := (before.reverse.takeWhile (· != newline)).length + 1

end Position

/-- The position of a byte offset; an offset past the end has the position of the end. -/
def positionAt (bytes : Bytes) (offset : Nat) : Position :=
  Position.after (bytes.take offset)

/-- The offset of the first byte from `offset` on that starts no character, or none if
every byte belongs to one. -/
def firstInvalidByte (bytes : ByteArray) (offset : Nat) : Option Nat :=
  if offset < bytes.size then
    match bytes.utf8DecodeChar? offset with
    | some c => firstInvalidByte bytes (offset + c.utf8Size)
    | none => some offset
  else none
termination_by bytes.size - offset
decreasing_by
  have := c.utf8Size_pos
  omega

/-- Reads bytes as a text, or names the offset of the first byte that is not UTF-8. -/
def decode (bytes : ByteArray) : Except Nat String :=
  match String.fromUTF8? bytes with
  | some text => .ok text
  | none => .error ((firstInvalidByte bytes 0).getD 0)

end IncrementalBuild
