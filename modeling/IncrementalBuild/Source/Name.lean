/-!
# Names and the table that hands them out

A name stands for a text. It is a pair of a shard, which the first bytes of the
text decide, and an index within the shard, which grows in order of arrival. The
empty text is name zero of every table.
-/

set_option autoImplicit false

namespace IncrementalBuild

/-- A handle for a text: the shard it is filed under and its place there. -/
structure Name where
  shard : Fin 16
  index : Nat
  deriving DecidableEq, Inhabited

namespace Name

/-- The number of texts one shard has room for. -/
def shardCapacity : Nat := 1 <<< 28

/-- The name of the empty text. -/
def empty : Name := ⟨0, 0⟩

/-- The name with the given parts, if both are in range. -/
def ofParts? (shard index : Nat) : Option Name :=
  if h : shard < 16 then
    if index < shardCapacity then some ⟨⟨shard, h⟩, index⟩ else none
  else none

/-- Both parts in one number: the shard above 28 bits of index. -/
def raw (n : Name) : Nat := n.shard.val * shardCapacity + n.index

/-- The parts of a packed name. -/
def ofRaw (raw : Nat) : Name := ⟨Fin.ofNat 16 (raw / shardCapacity), raw % shardCapacity⟩

/-- The written form used in listings. -/
def text (n : Name) : String := s!"Name(shard={n.shard.val}, local={n.index})"

end Name

/-- The shard of a text: its first eight bytes read in base 31, modulo the number of
shards. -/
def shardOf (text : String) : Fin 16 :=
  let bytes := (text.toList.flatMap String.utf8EncodeChar).take 8
  Fin.ofNat 16 (bytes.foldl (fun (hash : UInt32) b => hash * 31 + b.toUInt32) 0).toNat

/-- A table of names: for each shard, its texts in order of arrival. -/
structure Interner where
  shards : Vector (List String) 16

namespace Interner

/-- The table that knows the empty text only. -/
def empty : Interner := ⟨(Vector.replicate 16 []).set 0 [""]⟩

/-- The name a text already has. -/
def find? (t : Interner) (text : String) : Option Name :=
  let shard := shardOf text
  (t.shards[shard].idxOf? text).map (⟨shard, ·⟩)

/-- Gives a text its name. A text already known keeps its name and the table; a new one
goes to the end of its shard and changes no other shard. -/
def intern (t : Interner) (text : String) : Name × Interner :=
  match t.find? text with
  | some name => (name, t)
  | none =>
    let shard := shardOf text
    let known := t.shards[shard]
    (⟨shard, known.length⟩, ⟨t.shards.set shard (known ++ [text])⟩)

/-- Gives names to texts in order and keeps the table only. -/
def internAll (t : Interner) (texts : List String) : Interner :=
  texts.foldl (fun t text => (t.intern text).2) t

/-- The text of a name, if the table ever gave it out. -/
def lookup? (t : Interner) (name : Name) : Option String :=
  t.shards[name.shard][name.index]?

/-- The number of texts known, the empty one among them. -/
def size (t : Interner) : Nat := t.shards.toList.flatten.length

/-- Whether no text but the empty one is known. -/
def isEmpty (t : Interner) : Bool := t.size ≤ 1

/-- The name a text has or would get next. -/
def nameOf (t : Interner) (text : String) : Name := (t.intern text).1

end Interner

end IncrementalBuild
