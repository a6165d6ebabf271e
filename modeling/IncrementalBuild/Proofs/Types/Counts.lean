import IncrementalBuild.Proofs.Types.Residents

/-!
# Holders are counted exactly

An object counts the handles that its client has to it, the mentions of it by other
objects, and what the store holds itself: each primitive once, and once more for each
primitive value of that type. No holder is ever taken away from an object that has none,
also not by the rounds of reclaiming; so no count would fall below zero.
-/

set_option autoImplicit false

namespace IncrementalBuild

/-- How often a store itself holds the object of a form. -/
def TypeForm.ownHolders : TypeForm → Nat
  | .primitive p => 1 + PrimitiveValue.all.countP (·.type = p)
  | _ => 0

namespace TypeStore

variable {s : TypeStore} {held handles ids : List TypeId}

/-! ## What a store holds itself -/

/-- A store holds of its pinned objects the primitives and no other. -/
theorem count_ownHoldings_initial : ∀ x ∈ initial.shapes,
    initial.ownHoldings.count x.1 = x.2.ownHolders := by
  decide +kernel

theorem Tended.count_ownHoldings (ht : s.Tended) (hs : s.Sound held) {o : TypeObject}
    (ho : o ∈ s.objects) : TypeStore.initial.ownHoldings.count o.id = o.form.ownHolders := by
  cases hpinned : o.isPinned with
  | true => exact count_ownHoldings_initial o.shape (ht.mem_initial ho hpinned)
  | false =>
    have hcount := List.count_eq_zero.mpr (ht.not_mem_ownHoldings hs.numbered ho hpinned)
    obtain ⟨table, htable⟩ := ht.exists_table hs ho hpinned
    cases hform : o.form with
    | primitive p => simp [hform, TypeForm.table?] at htable
    | _ => simpa [TypeForm.ownHolders] using hcount

/-! ## Counts -/

theorem Tended.holders_eq (ht : s.Tended)
    (hs : s.Sound (handles ++ TypeStore.initial.ownHoldings)) {o : TypeObject}
    (ho : o ∈ s.objects) :
    o.holders = handles.count o.id + s.mentioned.count o.id + o.form.ownHolders := by
  have hcount := hs.holders_eq o ho
  rw [List.count_append, ht.count_ownHoldings hs ho] at hcount
  omega

/-- Whoever is let go of has a holder at that time. -/
def Covers (s : TypeStore) : List TypeId → Prop
  | [] => True
  | id :: ids => 0 < s.holders id ∧ (s.releaseOnly id).Covers ids

namespace Sound

/-- What is held has a holder. -/
theorem holders_pos (hs : s.Sound held) {id : TypeId} (hid : id ∈ held) : 0 < s.holders id := by
  obtain ⟨o, ho, rfl⟩ := mem_ids.1 (hs.held_resident id hid)
  have hcount := hs.holders_eq o ho
  have hpos : 0 < held.count o.id := List.count_pos_iff.2 hid
  simp only [holders, hs.get?_eq ho, Option.map_some, Option.getD_some]
  omega

/-- Handles that are out can be given back one after the other. -/
theorem covers (hs : s.Sound (ids ++ held)) : s.Covers ids := by
  induction ids generalizing s with
  | nil => trivial
  | cons id ids ih => exact ⟨hs.holders_pos (List.mem_cons_self ..), ih hs.releaseOnly⟩

/-- What a round of reclaiming leaves before it lets go of the components of what it
removed. -/
theorem cleared (hs : s.Sound held) :
    Sound { s with queue := [], objects := s.objects.filter (!s.isReclaimable ·) }
      ((s.objects.filter s.isReclaimable).flatMap (·.form.components) ++ held) := by
  have hempty : Sound { s with queue := [] } held :=
    hs.recount rfl rfl rfl hs.held_resident hs.holders_eq
  refine hempty.without fun o _ ho => ?_
  exact (isDead_eq_true.1 (Bool.and_eq_true_iff.1 ho).1).2

theorem reclaimRound (hs : s.Sound held) : s.reclaimRound.Sound held := hs.cleared.releaseAll

theorem reclaimRounds (hs : s.Sound held) (k : Nat) : (TypeStore.reclaimRound^[k] s).Sound held := by
  induction k generalizing s with
  | zero => exact hs
  | succ k ih => exact ih hs.reclaimRound

end Sound

theorem Tended.reclaimRounds (ht : s.Tended) (hs : s.Sound held) (k : Nat) :
    (TypeStore.reclaimRound^[k] s).Tended := by
  induction k generalizing s with
  | zero => exact ht
  | succ k ih => exact ih (ht.reclaimRound hs.numbered) hs.reclaimRound

end TypeStore

namespace TypeClient

open TypeStore

/-- After any run of requests, and after any number of rounds of reclaiming what it left,
the counts are exact; every handle that its client can drop has an object with a holder;
and so has every component that the next round lets go of, at the time at which it does. -/
theorem counts_are_exact (requests : List TypeRequest) (rounds : Nat) :
    let c := run requests
    let s := reclaimRound^[rounds] c.store
    (∀ o ∈ s.objects,
      o.holders = c.handles.count o.id + s.mentioned.count o.id + o.form.ownHolders) ∧
    (∀ o ∈ s.objects, o.isPinned = false → o.holders = 0 → o.id ∈ s.queue) ∧
    (∀ handle ∈ c.handles, 0 < s.holders handle) ∧
    Covers { s with queue := [], objects := s.objects.filter (!s.isReclaimable ·) }
      ((s.objects.filter s.isReclaimable).flatMap (·.form.components)) := by
  intro c s
  have hc : c.Sound := sound_run requests
  have hs : s.Sound (c.handles ++ initial.ownHoldings) := Sound.reclaimRounds hc rounds
  have ht : s.Tended := (tended_run requests).reclaimRounds hc rounds
  refine ⟨fun o ho => ht.holders_eq hs ho, ?_, ?_, hs.cleared.covers⟩
  · intro o ho hfree hzero
    exact ht.queued o ho (isDead_eq_true.2 ⟨hfree, hzero⟩)
  · intro handle hmem
    exact hs.holders_pos (List.mem_append_left _ hmem)

-- a function that takes one type twice holds it twice, and `bool` is held for two values
example : (run [.named "u5", .function [30, 30] 30 .unspecified, .drop 30]).store.holders 30 = 3 ∧
    initial.objects.find? (·.form == .primitive .bool) = some ⟨1, .primitive .bool, 3, true⟩ := by
  decide +kernel

end TypeClient

end IncrementalBuild
