import IncrementalBuild.Proofs.Syntax.Items

/-!
# What the parser accepts

A reader of items takes an item where the grammar has one, whatever comes after, so the
parse of a list of tokens and its derivation go along item by item: an error is where no item
is spelled, and no list of tokens is derived in two ways.
-/

set_option autoImplicit false

namespace IncrementalBuild

open Reader Grammar

variable {stop fuel : Nat} {tokens : List Token} {pieces pieces' : List (List Token × Item)}

/-- A parse without an error is a derivation. -/
theorem exists_derivation_of_error_eq_none (hfuel : tokens.length ≤ fuel)
    (h : (itemsWithin stop fuel tokens).error = none) : ∃ pieces, Derivation tokens pieces := by
  induction fuel generalizing tokens with
  | zero =>
    obtain rfl := List.eq_nil_of_length_eq_zero (Nat.le_zero.1 hfuel)
    exact ⟨[], .nil⟩
  | succ fuel ih =>
    rcases tokens with _ | ⟨t, ts⟩
    · exact ⟨[], .nil⟩
    · rw [itemsWithin] at h
      cases hitem : item stop (t :: ts) with
      | failed e names => simp [hitem] at h
      | done node names rest =>
        obtain ⟨used, hused, hnode, -⟩ := item_reads.1 hitem
        rw [hitem] at h
        have hlength := congrArg List.length hused
        rw [List.length_append] at hlength
        have hpos := List.length_pos_iff.2 hnode.ne_nil
        obtain ⟨pieces, hpieces⟩ := ih (by omega) h
        exact ⟨(used, node) :: pieces, hused ▸ .cons hnode hpieces⟩

/-- Derived tokens are parsed to the items of the derivation, in order. -/
theorem itemsWithin_of_derivation (h : Derivation tokens pieces) (hfuel : tokens.length ≤ fuel) :
    itemsWithin stop fuel tokens =
      { items := pieces.map (·.2), error := none, names := pieces.flatMap (·.2.names) } := by
  induction h generalizing fuel with
  | nil => cases fuel <;> rfl
  | @cons used more node pieces hnode _ ih =>
    obtain ⟨t, ts, rfl⟩ := List.exists_cons_of_ne_nil hnode.ne_nil
    have hread : item stop (t :: (ts ++ more)) = .done node node.names more :=
      item_reads.2 ⟨t :: ts, rfl, hnode, rfl⟩
    rw [List.length_append, List.length_cons] at hfuel
    obtain ⟨fuel, rfl⟩ := Nat.exists_eq_succ_of_ne_zero (n := fuel) (by omega)
    rw [List.cons_append, itemsWithin, hread]
    dsimp only
    rw [ih (by omega)]
    rfl

/-- Tokens that spell one item are parsed to that item. -/
theorem itemsOf_of_itemOf {used : List Token} {node : Item} (h : ItemOf used node) :
    itemsOf stop used = { items := [node], error := none, names := node.names } := by
  have hone : Derivation (used ++ []) [(used, node)] := .cons h .nil
  rw [List.append_nil] at hone
  simpa [itemsOf] using itemsWithin_of_derivation hone (Nat.le_refl _)

/-- No list of tokens has two derivations. -/
theorem Grammar.Derivation.unique (h : Derivation tokens pieces) (h' : Derivation tokens pieces') :
    pieces = pieces' := by
  induction h generalizing pieces' with
  | nil =>
    generalize htokens : ([] : List Token) = tokens at h'
    cases h' with
    | nil => rfl
    | cons hnode _ => exact absurd (List.append_eq_nil_iff.1 htokens.symm).1 hnode.ne_nil
  | @cons used more node pieces hnode hpieces ih =>
    generalize htokens : used ++ more = tokens at h'
    cases h' with
    | nil => exact absurd (List.append_eq_nil_iff.1 htokens).1 hnode.ne_nil
    | cons hnode' hpieces' =>
      obtain ⟨rfl, rfl, rfl⟩ := hnode.head_unique hnode' htokens
      rw [ih hpieces']

/-- The parser accepts what the grammar derives: the items of a list of tokens are parsed
without an error exactly if the list has a derivation, which is then the only one and whose
items, in order, are those of the parse. -/
theorem accepts_iff_derivable (stop : Nat) (tokens : List Token) :
    ((itemsOf stop tokens).error = none ↔ ∃ pieces, Derivation tokens pieces) ∧
    ∀ pieces, Derivation tokens pieces → (itemsOf stop tokens).items = pieces.map (·.2) ∧
      ∀ pieces', Derivation tokens pieces' → pieces' = pieces := by
  have hparse : ∀ pieces, Derivation tokens pieces → itemsOf stop tokens =
      { items := pieces.map (·.2), error := none, names := pieces.flatMap (·.2.names) } :=
    fun pieces h => itemsWithin_of_derivation h (Nat.le_refl _)
  refine ⟨⟨fun h => exists_derivation_of_error_eq_none (Nat.le_refl _) h, ?_⟩, ?_⟩
  · rintro ⟨pieces, h⟩
    rw [hparse pieces h]
  · intro pieces h
    exact ⟨by rw [hparse pieces h], fun pieces' h' => h'.unique h⟩

end IncrementalBuild
