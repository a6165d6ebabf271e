import IncrementalBuild.Source.Name

/-!
# Names that are known

A table keeps every text it was given a name for, and has nothing to add for a text it
knows.
-/

set_option autoImplicit false

namespace IncrementalBuild

namespace Interner

variable {t : Interner} {text : String} {texts : List String}

/-- A text is filed in its shard. -/
def Knows (t : Interner) (text : String) : Prop := text ∈ t.shards.get (shardOf text)

theorem find?_isSome : (t.find? text).isSome ↔ t.Knows text := by
  rw [find?, Option.isSome_map, List.isSome_idxOf?]
  exact Iff.rfl

theorem intern_of_knows (h : t.Knows text) : (t.intern text).2 = t := by
  obtain ⟨name, hname⟩ := Option.isSome_iff_exists.1 (find?_isSome.2 h)
  rw [intern, hname]

theorem knows_intern_self : (t.intern text).2.Knows text := by
  unfold intern
  split
  · rename_i name hname
    exact find?_isSome.1 (by rw [hname]; rfl)
  · show text ∈ ((t.shards.set _ _)[shardOf text])
    simp

theorem Knows.intern {other : String} (h : t.Knows text) : (t.intern other).2.Knows text := by
  unfold Interner.intern
  split
  · exact h
  · change text ∈ t.shards[shardOf text] at h
    show text ∈ ((t.shards.set _ _)[shardOf text])
    by_cases hshard : shardOf other = shardOf text
    · simpa [hshard] using Or.inl h
    · have hne : (shardOf other).val ≠ (shardOf text).val := fun heq => hshard (Fin.ext heq)
      simpa [Vector.getElem_set_ne, hne] using h

theorem Knows.internAll (h : t.Knows text) : (t.internAll texts).Knows text := by
  induction texts generalizing t with
  | nil => exact h
  | cons other texts ih => exact ih h.intern

/-- Every text of a list is known once the list was given names. -/
theorem knows_internAll (h : text ∈ texts) : (t.internAll texts).Knows text := by
  induction texts generalizing t with
  | nil => cases h
  | cons other texts ih =>
    rcases List.mem_cons.1 h with rfl | h
    · exact knows_intern_self.internAll
    · exact ih h

/-- A table that knows all texts of a list stays as it is. -/
theorem internAll_of_knows (h : ∀ text ∈ texts, t.Knows text) : t.internAll texts = t := by
  induction texts with
  | nil => rfl
  | cons text texts ih =>
    rw [Interner.internAll, List.foldl_cons, intern_of_knows (h text (List.mem_cons_self ..))]
    exact ih fun other hother => h other (List.mem_cons_of_mem _ hother)

end Interner

end IncrementalBuild
