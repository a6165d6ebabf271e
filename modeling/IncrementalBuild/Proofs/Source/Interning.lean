import IncrementalBuild.Proofs.Source.Names
import Mathlib.Data.Finset.Card
import Mathlib.Data.List.Nodup

/-!
# One name for each text

Whatever texts a new table is asked to name, and in whatever order, a text and its name
stand for each other: equal texts and no others share a name, the table gives back the text
of a name and keeps giving the same name, and it counts each text once. The name of a text
is its shard and the place where the text first stands there (`nameOf_eq`), and a shard only
grows at its end.

## Main results

* `Interner.Filed`: every text is in its own shard, once; kept by `Interner.intern`.
* `Interner.nameOf_intern`, `Interner.lookup?_nameOf`: names last, and are read back.
* `Interner.size_internAll`: the number of texts known.
-/

set_option autoImplicit false

namespace IncrementalBuild

/-! ## Packed names -/

namespace Name

variable {n m : Name} {r : Nat}

theorem shardCapacity_eq : shardCapacity = 268435456 := rfl

theorem raw_eq_or (h : n.index < shardCapacity) : n.raw = n.shard.val <<< 28 ||| n.index := by
  rw [← Nat.shiftLeft_add_eq_or_of_lt h, Nat.shiftLeft_eq]
  rfl

theorem ofRaw_raw (h : n.index < shardCapacity) : ofRaw n.raw = n := by
  have hpos : 0 < shardCapacity := by decide
  have hshard : n.raw / shardCapacity = n.shard.val := by
    rw [raw, Nat.mul_comm, Nat.mul_add_div hpos, Nat.div_eq_of_lt h, Nat.add_zero]
  have hindex : n.raw % shardCapacity = n.index := by
    rw [raw, Nat.mul_comm, Nat.mul_add_mod, Nat.mod_eq_of_lt h]
  rw [ofRaw, hshard, hindex]
  cases n with
  | mk shard index => congr 1; exact Fin.ext (Nat.mod_eq_of_lt shard.isLt)

theorem raw_lt (h : n.index < shardCapacity) : n.raw < UInt32.size := by
  have hshard := n.shard.isLt
  simp only [raw, shardCapacity_eq, UInt32.size] at *
  omega

theorem raw_ofRaw (h : r < UInt32.size) : (ofRaw r).raw = r := by
  simp only [raw, ofRaw, shardCapacity_eq, Fin.ofNat, UInt32.size] at *
  omega

theorem ofParts?_self (h : n.index < shardCapacity) : ofParts? n.shard n.index = some n := by
  rw [ofParts?, dif_pos n.shard.isLt, if_pos h]

/-- Names whose indices fit are one name if they are packed alike. -/
theorem raw_inj (hn : n.index < shardCapacity) (hm : m.index < shardCapacity) :
    n.raw = m.raw ↔ n = m := by
  refine ⟨fun h => ?_, congrArg raw⟩
  rw [← ofRaw_raw hn, h, ofRaw_raw hm]

end Name

namespace Interner

variable {t : Interner} {text other : String} {texts : List String}

/-! ## The name of a text -/

/-- A text is named by its shard and the first place it has there, which for a new text is
the place after all others. -/
theorem nameOf_eq : t.nameOf text =
    ⟨shardOf text, (t.shards.get (shardOf text)).idxOf text⟩ := by
  have hplace := List.idxOf_eq_getD_idxOf? text (t.shards.get (shardOf text))
  cases hidx : (t.shards.get (shardOf text)).idxOf? text with
  | none =>
    have hfind : t.find? text = none := congrArg (Option.map (Name.mk (shardOf text))) hidx
    rw [nameOf, intern, hfind, hplace, hidx]
    rfl
  | some i =>
    have hfind : t.find? text = some ⟨shardOf text, i⟩ :=
      congrArg (Option.map (Name.mk (shardOf text))) hidx
    rw [nameOf, intern, hfind, hplace, hidx]
    rfl

/-- What naming a text does to the shards. -/
theorem get_intern (shard : Fin 16) : (t.intern text).2.shards.get shard =
    if shard = shardOf text ∧ text ∉ t.shards.get (shardOf text) then
      t.shards.get shard ++ [text]
    else t.shards.get shard := by
  by_cases h : t.Knows text
  · rw [intern_of_knows h, if_neg fun hnew => hnew.2 h]
  · have hfind : t.find? text = none :=
      Option.not_isSome_iff_eq_none.1 fun hsome => h (find?_isSome.1 hsome)
    rw [intern, hfind]
    change (t.shards.set _ _)[shard] = _
    by_cases hshard : shard = shardOf text
    · subst hshard
      rw [if_pos ⟨rfl, h⟩]
      exact Vector.getElem_set_self ..
    · rw [if_neg fun hnew => hshard hnew.1]
      exact Vector.getElem_set_ne _ _ fun heq => hshard (Fin.ext heq.symm)

theorem get_prefix_intern (shard : Fin 16) :
    t.shards.get shard <+: (t.intern text).2.shards.get shard := by
  rw [get_intern]
  split
  · exact List.prefix_append ..
  · exact List.prefix_rfl

theorem get_prefix_internAll (t : Interner) (texts : List String) (shard : Fin 16) :
    t.shards.get shard <+: (t.internAll texts).shards.get shard := by
  induction texts generalizing t with
  | nil => exact List.prefix_rfl
  | cons text texts ih => exact (get_prefix_intern shard).trans (ih _)

theorem knows_intern : (t.intern other).2.Knows text ↔ t.Knows text ∨ text = other := by
  refine ⟨fun h => ?_, ?_⟩
  · rw [Knows, get_intern] at h
    split at h
    · exact (List.mem_append.1 h).imp id List.mem_singleton.1
    · exact .inl h
  · rintro (h | rfl)
    · exact h.intern
    · exact knows_intern_self

theorem knows_internAll_iff : (t.internAll texts).Knows text ↔ t.Knows text ∨ text ∈ texts := by
  induction texts generalizing t with
  | nil => simp [internAll]
  | cons other texts ih =>
    calc ((t.intern other).2.internAll texts).Knows text
        ↔ (t.intern other).2.Knows text ∨ text ∈ texts := ih
      _ ↔ t.Knows text ∨ text ∈ other :: texts := by rw [knows_intern, List.mem_cons, or_assoc]

/-- The name of a known text is the same after every list of texts. -/
theorem nameOf_internAll (h : t.Knows text) :
    (t.internAll texts).nameOf text = t.nameOf text := by
  obtain ⟨added, hadded⟩ := get_prefix_internAll t texts (shardOf text)
  rw [nameOf_eq, nameOf_eq, ← hadded, List.idxOf_append_of_mem h]

/-- The name a text was given is the one it has from then on. -/
theorem nameOf_intern_internAll :
    ((t.intern text).2.internAll texts).nameOf text = t.nameOf text := by
  rw [nameOf_internAll knows_intern_self]
  by_cases h : t.Knows text
  · rw [intern_of_knows h]
  · rw [nameOf_eq, nameOf_eq, get_intern, if_pos ⟨rfl, h⟩, List.idxOf_append_of_notMem h,
      List.idxOf_eq_length h, List.idxOf_cons_self, Nat.add_zero]

/-- The text of a name is read back. -/
theorem lookup?_nameOf (h : t.Knows text) : t.lookup? (t.nameOf text) = some text := by
  rw [nameOf_eq]
  change (t.shards.get (shardOf text))[(t.shards.get (shardOf text)).idxOf text]? = some text
  exact List.getElem?_idxOf h

/-- No two known texts have one name. -/
theorem nameOf_inj (h : t.Knows text) (hother : t.Knows other) :
    t.nameOf text = t.nameOf other ↔ text = other := by
  refine ⟨fun heq => Option.some.inj ?_, congrArg _⟩
  rw [← lookup?_nameOf h, heq, lookup?_nameOf hother]

theorem index_nameOf_lt (h : t.Knows text) :
    (t.nameOf text).index < (t.shards.get (shardOf text)).length := by
  rw [nameOf_eq]
  exact List.idxOf_lt_length_of_mem h

/-! ## Each text once -/

/-- Every text of a table is in its own shard, and there once. -/
structure Filed (t : Interner) : Prop where
  shard_eq : ∀ {shard : Fin 16} {text : String}, text ∈ t.shards.get shard → shardOf text = shard
  nodup : ∀ shard : Fin 16, (t.shards.get shard).Nodup

theorem get_empty (shard : Fin 16) :
    empty.shards.get shard = if shard = 0 then [""] else [] := by
  revert shard
  decide

theorem shardOf_empty : shardOf "" = 0 := by decide

theorem knows_empty : empty.Knows text ↔ text = "" := by
  rw [Knows, get_empty]
  split
  · exact List.mem_singleton
  · next h =>
    exact ⟨fun hmem => absurd hmem List.not_mem_nil, fun heq => absurd (heq ▸ shardOf_empty) h⟩

theorem filed_empty : empty.Filed where
  shard_eq {shard text} h := by
    rw [get_empty] at h
    split at h
    · next hshard => rw [List.mem_singleton.1 h, hshard, shardOf_empty]
    · exact absurd h List.not_mem_nil
  nodup shard := by
    rw [get_empty]
    split
    · exact List.nodup_singleton _
    · exact List.nodup_nil

theorem Filed.intern (h : t.Filed) : (t.intern text).2.Filed where
  shard_eq {shard other} hother := by
    rw [get_intern] at hother
    split at hother
    · next hnew =>
      rcases List.mem_append.1 hother with hother | hother
      · exact h.shard_eq hother
      · rw [List.mem_singleton.1 hother, hnew.1]
    · exact h.shard_eq hother
  nodup shard := by
    rw [get_intern]
    split
    · next hnew =>
      obtain ⟨rfl, hnew⟩ := hnew
      rw [← List.concat_eq_append]
      exact (h.nodup _).concat hnew
    · exact h.nodup shard

theorem Filed.internAll (h : t.Filed) : (t.internAll texts).Filed := by
  induction texts generalizing t with
  | nil => exact h
  | cons text texts ih => exact ih h.intern

theorem flatten_shards :
    t.shards.toList.flatten = (List.finRange 16).flatMap t.shards.get := by
  have hlist : t.shards.toList = (List.finRange 16).map t.shards.get := by
    refine List.ext_getElem (by simp) fun i hi hi' => ?_
    rw [List.getElem_map, List.getElem_finRange]
    rfl
  rw [hlist, List.flatMap_def]

theorem Filed.mem_flatten (h : t.Filed) : text ∈ t.shards.toList.flatten ↔ t.Knows text := by
  rw [flatten_shards, List.mem_flatMap]
  constructor
  · rintro ⟨shard, -, hmem⟩
    rw [Knows, h.shard_eq hmem]
    exact hmem
  · exact fun hknows => ⟨shardOf text, List.mem_finRange _, hknows⟩

/-- Two shards have no text in common, so the texts of all shards are distinct. -/
theorem Filed.nodup_flatten (h : t.Filed) : t.shards.toList.flatten.Nodup := by
  rw [flatten_shards, List.nodup_flatMap]
  refine ⟨fun shard _ => h.nodup shard, (List.nodup_finRange 16).imp ?_⟩
  intro shard other hne text hmem hother
  exact hne ((h.shard_eq hmem).symm.trans (h.shard_eq hother))

/-- A table has as many texts as were distinct among those it was given, with the empty
one. -/
theorem size_internAll :
    (empty.internAll texts).size = 1 + (texts.toFinset.erase "").card := by
  have h : (empty.internAll texts).Filed := filed_empty.internAll
  have hmem : (empty.internAll texts).shards.toList.flatten.toFinset =
      insert "" (texts.toFinset.erase "") := by
    ext text
    rw [List.mem_toFinset, h.mem_flatten, knows_internAll_iff, knows_empty, Finset.mem_insert,
      Finset.mem_erase, List.mem_toFinset]
    by_cases htext : text = "" <;> simp [htext]
  rw [size, ← List.toFinset_card_of_nodup h.nodup_flatten, hmem,
    Finset.card_insert_of_notMem (Finset.notMem_erase "" _), Nat.add_comm]

/-! ## A sequence of calls -/

/-- The name given by the call at a place in a sequence of calls. -/
def nameGiven (t : Interner) (texts : List String) (i : Fin texts.length) : Name :=
  ((t.internAll (texts.take i)).intern (texts.get i)).1

theorem take_eq_take_append {i k : Nat} (hi : i < texts.length) (hik : i < k) :
    texts.take k =
      texts.take i ++ texts.get ⟨i, hi⟩ :: (texts.drop (i + 1)).take (k - (i + 1)) := by
  have hk : k = (i + 1) + (k - (i + 1)) := by omega
  rw [hk, List.take_add, ← List.take_concat_get' _ _ hi, List.append_assoc, Nat.add_sub_cancel_left]
  rfl

/-- The name a call gave is the name its text has after any number of later calls. -/
theorem nameOf_eq_nameGiven {i : Fin texts.length} {k : Nat} (hik : i < k) :
    (t.internAll (texts.take k)).nameOf (texts.get i) = t.nameGiven texts i := by
  rw [take_eq_take_append i.isLt hik, internAll, List.foldl_append, List.foldl_cons]
  exact nameOf_intern_internAll

theorem knows_take {i : Fin texts.length} {k : Nat} (hik : i < k) :
    (t.internAll (texts.take k)).Knows (texts.get i) := by
  refine knows_internAll ?_
  rw [take_eq_take_append i.isLt hik]
  exact List.mem_append_right _ (List.mem_cons_self ..)

/-- The index of a name that was given is below the final length of its shard. -/
theorem index_nameGiven_lt (i : Fin texts.length) :
    (t.nameGiven texts i).index <
      ((t.internAll texts).shards.get (shardOf (texts.get i))).length := by
  rw [← nameOf_eq_nameGiven i.isLt, List.take_length]
  exact index_nameOf_lt (knows_internAll (List.get_mem ..))

/-- A new table names texts in any order, and no shard gets more of them than it has room
for. Then packed names are equal exactly if their texts are. A name fits in 32 bits, and at
every later time it is the one its text is given again and the one whose text is looked up.
At all times the table counts each text other than the empty one once, and the empty one
besides, whose name is zero. A name goes to its parts and back, and so does a number of
32 bits. -/
theorem names_stand_for_texts (texts : List String)
    (room : ∀ shard : Fin 16,
      ((empty.internAll texts).shards.get shard).length ≤ Name.shardCapacity) :
    (∀ i j, (empty.nameGiven texts i).raw = (empty.nameGiven texts j).raw ↔
      texts.get i = texts.get j) ∧
    (∀ i : Fin texts.length, (empty.nameGiven texts i).raw < UInt32.size ∧
      ∀ k : Nat, i < k →
        ((empty.internAll (texts.take k)).intern (texts.get i)).1 = empty.nameGiven texts i ∧
        (empty.internAll (texts.take k)).lookup? (Name.ofRaw (empty.nameGiven texts i).raw) =
          some (texts.get i)) ∧
    (∀ k : Nat,
      (empty.internAll (texts.take k)).size = 1 + ((texts.take k).toFinset.erase "").card ∧
      ((empty.internAll (texts.take k)).intern "").1.raw = 0) ∧
    (∀ name : Name, name.index < Name.shardCapacity →
      Name.ofParts? name.shard name.index = some name ∧ Name.ofRaw name.raw = name ∧
      name.raw = name.shard.val <<< 28 ||| name.index) ∧
    ∀ r < UInt32.size, (Name.ofRaw r).raw = r ∧ (Name.ofRaw r).index < Name.shardCapacity := by
  have hfits (i : Fin texts.length) : (empty.nameGiven texts i).index < Name.shardCapacity :=
    (index_nameGiven_lt i).trans_le (room _)
  refine ⟨fun i j => ?_, fun i => ⟨Name.raw_lt (hfits i), fun k hik => ⟨?_, ?_⟩⟩, fun k => ⟨?_, ?_⟩,
    fun name hname => ⟨Name.ofParts?_self hname, Name.ofRaw_raw hname, Name.raw_eq_or hname⟩,
    fun r hr => ⟨Name.raw_ofRaw hr, Nat.mod_lt _ (by decide)⟩⟩
  · rw [Name.raw_inj (hfits i) (hfits j), ← nameOf_eq_nameGiven i.isLt,
      ← nameOf_eq_nameGiven j.isLt]
    exact nameOf_inj (knows_take i.isLt) (knows_take j.isLt)
  · exact nameOf_eq_nameGiven hik
  · rw [Name.ofRaw_raw (hfits i), ← nameOf_eq_nameGiven hik]
    exact lookup?_nameOf (knows_take hik)
  · exact size_internAll
  · have hempty : empty.Knows "" := knows_empty.2 rfl
    change ((empty.internAll (texts.take k)).nameOf "").raw = 0
    rw [nameOf_internAll hempty]
    decide

/-- Two texts that share the first eight bytes, and so the shard, and one of them again. -/
theorem names_of_four_texts :
    (∀ shard : Fin 16, ((empty.internAll
      ["überlauf", "überlauf2", "", "überlauf"]).shards.get shard).length ≤ Name.shardCapacity) ∧
    (empty.nameGiven ["überlauf", "überlauf2", "", "überlauf"] 0).raw =
      (empty.nameGiven ["überlauf", "überlauf2", "", "überlauf"] 3).raw ∧
    (empty.nameGiven ["überlauf", "überlauf2", "", "überlauf"] 0).raw ≠
      (empty.nameGiven ["überlauf", "überlauf2", "", "überlauf"] 1).raw ∧
    (empty.internAll ["überlauf", "überlauf2", "", "überlauf"]).size = 3 := by
  have room : ∀ shard : Fin 16, ((empty.internAll
      ["überlauf", "überlauf2", "", "überlauf"]).shards.get shard).length ≤ Name.shardCapacity := by
    decide +kernel
  have h := names_stand_for_texts _ room
  refine ⟨room, (h.1 0 3).2 rfl, fun heq => ?_, (h.2.2.1 4).1⟩
  exact absurd ((h.1 0 1).1 heq) (by decide)

end Interner

end IncrementalBuild
