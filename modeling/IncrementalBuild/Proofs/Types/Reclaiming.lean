import IncrementalBuild.Proofs.Types.Canonical
import Mathlib.Data.List.Perm.Basic
import Mathlib.Logic.Function.Iterate

/-!
# Reclaiming is exact

Every object of a store that could be removed waits in the queue: an object loses its last
holder by being let go of, which queues it. So one round removes whatever is dead, and queues
whatever dies of it, and the rounds end when nothing is dead. What is left is held: by a
handle, or by an object with a higher number, which is held itself. So it is reached from a
handle, and what is reached from a handle is never dead.

Whatever is done with a store is done by four requests: an object of a form is asked for, a
holder comes, a holder goes, and what nobody holds is reclaimed. So a store stays tended
whatever happens to it.
-/

set_option autoImplicit false

namespace IncrementalBuild

namespace TypeStore

variable {s s' s'' : TypeStore} {held handles : List TypeId}

/-! ## Rounds -/

/-- One round of reclaiming: the queue is taken, the objects in it that have no holder are
removed, and their components are let go of, which may queue these. -/
def reclaimRound (s : TypeStore) : TypeStore :=
  removeWhere { s with queue := [] } s.isReclaimable

theorem reclaimRound_of_idle (h : s.objects.any s.isReclaimable = false) :
    s.reclaimRound = { s with queue := [] } := by
  have hnone : ∀ o ∈ s.objects, s.isReclaimable o = false := by
    simpa only [List.any_eq_false, Bool.not_eq_true] using h
  have hgone : s.objects.filter s.isReclaimable = [] :=
    List.filter_eq_nil_iff.2 fun o ho => by simp [hnone o ho]
  have hkept : s.objects.filter (!s.isReclaimable ·) = s.objects :=
    List.filter_eq_self.2 fun o ho => by simp [hnone o ho]
  simp only [reclaimRound, removeWhere, hgone, hkept, List.flatMap_nil, releaseAll,
    List.foldl_nil]

theorem queue_reclaim (s : TypeStore) : s.reclaim.queue = [] := by
  fun_induction reclaim s with
  | case1 s hany emptied ih => exact ih
  | case2 s hnone => rfl

/-- Reclaiming is one round after the other until the queue is empty, and each round but the
last removes an object. -/
theorem exists_rounds (s : TypeStore) :
    ∃ rounds ≤ s.objects.length + 1, s.reclaim = reclaimRound^[rounds] s ∧
      ∀ k < rounds, (reclaimRound^[k] s).queue ≠ [] := by
  fun_induction reclaim s with
  | case1 s hany emptied ih =>
    obtain ⟨rounds, hle, heq, hqueue⟩ := ih
    have hshort : (emptied.removeWhere s.isReclaimable).objects.length < s.objects.length := by
      rw [length_objects_removeWhere]
      exact length_filter_not_lt hany
    refine ⟨rounds + 1, by omega, heq, ?_⟩
    rintro (_ | k) hk
    · obtain ⟨o, -, ho⟩ := List.any_eq_true.1 hany
      have hin : o.id ∈ s.queue := by
        simpa using (Bool.and_eq_true_iff.1 ho).2
      exact List.ne_nil_of_mem hin
    · exact hqueue k (Nat.lt_of_succ_lt_succ hk)
  | case2 s hnone =>
    rw [Bool.not_eq_true] at hnone
    by_cases hqueue : s.queue = []
    · refine ⟨0, Nat.zero_le _, ?_, fun k hk => absurd hk (Nat.not_lt_zero k)⟩
      rw [Function.iterate_zero_apply, ← hqueue]
    · refine ⟨1, Nat.le_add_left 1 _, (reclaimRound_of_idle hnone).symm, fun k hk => ?_⟩
      rwa [Nat.lt_one_iff.1 hk]

/-- The objects of a store are those that reclaiming removes and those that stay. -/
theorem perm_reclaim (s : TypeStore) :
    (s.reclaimed.map TypeObject.shape ++ s.reclaim.shapes).Perm s.shapes := by
  fun_induction reclaim s with
  | case1 s hany emptied ih =>
    have hround : (emptied.removeWhere s.isReclaimable).shapes =
        (s.objects.filter (!s.isReclaimable ·)).map TypeObject.shape := by
      rw [removeWhere, shapes_releaseAll]
      rfl
    have hsplit := (List.filter_append_perm s.isReclaimable s.objects).map TypeObject.shape
    rw [List.map_append] at hsplit
    rw [reclaimed, if_pos hany, List.map_append, List.append_assoc]
    refine (List.Perm.append_left _ ?_).trans hsplit
    rwa [hround] at ih
  | case2 s hnone =>
    rw [reclaimed, if_neg hnone]
    exact List.Perm.refl _

/-! ## What is kept between requests -/

/-- The pinned objects of a store, apart from their holders. -/
def pinnedShapes (s : TypeStore) : List (TypeId × TypeForm) :=
  (s.objects.filter (·.isPinned)).map TypeObject.shape

/-- A store is tended when every object that could be removed waits in the queue, and its
pinned objects are those every store has from the start. -/
structure Tended (s : TypeStore) : Prop where
  queued : ∀ o ∈ s.objects, isDead o = true → o.id ∈ s.queue
  pinned : s.pinnedShapes = initial.shapes

theorem isDead_eq_true {o : TypeObject} : isDead o = true ↔ o.isPinned = false ∧ o.holders = 0 := by
  simp [isDead]

theorem pinnedShapes_modify (s : TypeStore) (id : TypeId) {f : TypeObject → TypeObject}
    (hshape : ∀ o, (f o).shape = o.shape) (hpinned : ∀ o, (f o).isPinned = o.isPinned) :
    (s.modify id f).pinnedShapes = s.pinnedShapes := by
  have hkept : ∀ o : TypeObject, (if o.id = id then f o else o).isPinned = o.isPinned := by
    intro o
    split
    · exact hpinned o
    · rfl
  simp only [pinnedShapes, modify, List.filter_map, List.map_map, Function.comp_def, hkept]
  refine List.map_congr_left fun o _ => ?_
  split
  · exact hshape o
  · rfl

namespace Tended

theorem initial : TypeStore.initial.Tended where
  queued := by decide +kernel
  pinned := by decide +kernel

/-- A holder more makes nothing dead. -/
theorem retain (h : s.Tended) (id : TypeId) : (s.retain id).Tended where
  queued := by
    intro o ho hdead
    obtain ⟨o, hmem, rfl⟩ := List.mem_map.1 ho
    rw [isDead_eq_true] at hdead
    split at hdead
    · exact absurd hdead.2 (Nat.succ_ne_zero _)
    · rename_i hne
      rw [if_neg hne]
      exact h.queued o hmem (isDead_eq_true.2 hdead)
  pinned := by
    rw [TypeStore.retain, pinnedShapes_modify s id (by intro; rfl) (by intro; rfl)]
    exact h.pinned

theorem retainAll (h : s.Tended) (ids : List TypeId) : (ids.foldl TypeStore.retain s).Tended := by
  induction ids generalizing s with
  | nil => exact h
  | cons id ids ih => exact ih (h.retain id)

/-- What loses its last holder is queued. -/
theorem releaseOnly (h : s.Tended) (hs : s.Numbered) (id : TypeId) : (s.releaseOnly id).Tended := by
  cases hget : s.get? id with
  | none =>
    have hsame : s.releaseOnly id = s := by simp [TypeStore.releaseOnly, hget]
    rwa [hsame]
  | some o =>
    have ho : o ∈ s.objects := List.mem_of_find?_eq_some hget
    have hoid : o.id = id := by simpa using List.find?_some hget
    have hpinned : (s.releaseOnly id).pinnedShapes = s.pinnedShapes := by
      simp only [TypeStore.releaseOnly, hget]
      split <;> exact pinnedShapes_modify s id (fun _ => rfl) fun _ => rfl
    have hqueue : ∀ i ∈ s.queue, i ∈ (s.releaseOnly id).queue := by
      intro i hi
      simp only [TypeStore.releaseOnly, hget]
      split
      · exact List.mem_append_left _ hi
      · exact hi
    have hobjects : (s.releaseOnly id).objects =
        s.objects.map fun p => if p.id = id then { p with holders := p.holders - 1 } else p := by
      simp only [TypeStore.releaseOnly, hget, modify]
      split <;> rfl
    refine ⟨fun p hp hdead => ?_, hpinned.trans h.pinned⟩
    rw [hobjects] at hp
    obtain ⟨p, hmem, rfl⟩ := List.mem_map.1 hp
    by_cases hpid : p.id = id
    · obtain rfl := hs.eq_of_id_eq hmem ho (hpid.trans hoid.symm)
      rw [if_pos hpid] at hdead ⊢
      obtain ⟨hfree, hzero⟩ := isDead_eq_true.1 hdead
      dsimp only at hfree hzero ⊢
      by_cases hone : p.holders = 1
      · have hlast : (s.releaseOnly id).queue = s.queue ++ [id] := by
          simp [TypeStore.releaseOnly, hget, modify, hone, hfree, hs.isOpen]
        rw [hlast, hpid]
        exact List.mem_append_right _ (List.mem_singleton_self _)
      · exact hqueue _ (h.queued p hmem (isDead_eq_true.2 ⟨hfree, by omega⟩))
    · rw [if_neg hpid] at hdead ⊢
      exact hqueue _ (h.queued p hmem hdead)

theorem releaseAll (h : s.Tended) (hs : s.Numbered) (ids : List TypeId) :
    (s.releaseAll ids).Tended := by
  unfold TypeStore.releaseAll
  induction ids generalizing s with
  | nil => exact h
  | cons id ids ih => exact ih (h.releaseOnly hs id) (hs.releaseOnly id)

theorem release (h : s.Tended) (hs : s.Numbered) (id : TypeId) : (s.release id).Tended := by
  rw [hs.release_eq]
  exact h.releaseOnly hs id

/-- A new object is held by its maker. -/
theorem create (h : s.Tended) (form : TypeForm) : (s.create form false).2.Tended := by
  have hkept := h.retainAll form.components
  refine ⟨fun o ho hdead => ?_, ?_⟩
  · rcases List.mem_append.1 ho with ho | ho
    · exact hkept.queued o ho hdead
    · rw [List.mem_singleton.1 ho] at hdead
      exact absurd (isDead_eq_true.1 hdead).2 Nat.one_ne_zero
  · have hpinned := hkept.pinned
    simp only [pinnedShapes, TypeStore.create, List.filter_append] at hpinned ⊢
    simpa using hpinned

theorem intern (h : s.Tended) (form : TypeForm) : (s.intern form).2.Tended := by
  unfold TypeStore.intern
  split
  · exact h.retain _
  · exact h.create form

/-- One round removes all that is dead, so that what is dead afterwards is queued by it. -/
theorem reclaimRound (h : s.Tended) (hs : s.Numbered) : s.reclaimRound.Tended := by
  refine releaseAll ⟨fun o ho hdead => ?_, ?_⟩ (hs.emptied.filter _) _
  · obtain ⟨hmem, hkept⟩ := List.mem_filter.1 ho
    have hwaits := h.queued o hmem hdead
    simp [isReclaimable, hdead, hwaits] at hkept
  · refine Eq.trans ?_ h.pinned
    simp only [pinnedShapes, List.filter_filter]
    refine congrArg _ (List.filter_congr fun o _ => ?_)
    cases hpinned : o.isPinned <;> simp [isReclaimable, isDead, hpinned]

theorem reclaim (h : s.Tended) (hs : s.Numbered) : s.reclaim.Tended := by
  fun_induction TypeStore.reclaim s with
  | case1 s hany emptied ih => exact ih (h.reclaimRound hs) (hs.emptied.removeWhere _)
  | case2 s hnone =>
    refine ⟨fun o ho hdead => ?_, h.pinned⟩
    rw [List.any_eq_true] at hnone
    refine absurd ⟨o, ho, ?_⟩ hnone
    simp [isReclaimable, hdead, h.queued o ho hdead]

/-! ## Pinned objects -/

theorem mem_initial (h : s.Tended) {o : TypeObject} (ho : o ∈ s.objects)
    (hpinned : o.isPinned = true) : o.shape ∈ TypeStore.initial.shapes := by
  rw [← h.pinned]
  exact List.mem_map_of_mem (List.mem_filter.2 ⟨ho, hpinned⟩)

theorem isPinned_of_mem_initial (h : s.Tended) (hs : s.Numbered) {o : TypeObject}
    (ho : o ∈ s.objects) {x : TypeId × TypeForm} (hx : x ∈ TypeStore.initial.shapes)
    (hid : o.id = x.1) : o.isPinned = true := by
  rw [← h.pinned] at hx
  obtain ⟨p, hp, rfl⟩ := List.mem_map.1 hx
  obtain ⟨hmem, hpinned⟩ := List.mem_filter.1 hp
  rwa [hs.eq_of_id_eq ho hmem hid]

/-- The store holds nothing but pinned objects itself. -/
theorem not_mem_ownHoldings (h : s.Tended) (hs : s.Numbered) {o : TypeObject}
    (ho : o ∈ s.objects) (hfree : o.isPinned = false) :
    o.id ∉ TypeStore.initial.ownHoldings := by
  intro hmem
  obtain ⟨p, hp, hid⟩ := mem_ids.1 (Sound.initial.held_resident o.id hmem)
  have hpinned := h.isPinned_of_mem_initial hs ho (List.mem_map_of_mem hp) hid.symm
  rw [hfree] at hpinned
  cases hpinned

/-- Pinned objects have no components. -/
theorem components_eq_nil (h : s.Tended) {o : TypeObject} (ho : o ∈ s.objects)
    (hpinned : o.isPinned = true) : o.form.components = [] := by
  have hplain : ∀ x ∈ TypeStore.initial.shapes, x.2.components = [] := by decide +kernel
  exact hplain _ (h.mem_initial ho hpinned)

/-- What is not pinned is counted in a table. -/
theorem exists_table (h : s.Tended) (hs : s.Sound held) {o : TypeObject} (ho : o ∈ s.objects)
    (hfree : o.isPinned = false) : ∃ table, o.form.table? = some table := by
  cases hform : o.form with
  | primitive p =>
    have hall : ∃ x ∈ TypeStore.initial.shapes, x.2 = .primitive p := by
      cases p <;> decide +kernel
    obtain ⟨x, hx, hp⟩ := hall
    rw [← h.pinned] at hx
    obtain ⟨o', ho', rfl⟩ := List.mem_map.1 hx
    obtain ⟨hmem, hpinned⟩ := List.mem_filter.1 ho'
    rw [hs.eq_of_form_eq ho hmem (hform.trans hp.symm), hpinned] at hfree
    cases hfree
  | int sign bits => exact ⟨_, rfl⟩
  | array element length => exact ⟨_, rfl⟩
  | pointer pointee q => exact ⟨_, rfl⟩
  | function params result convention => exact ⟨_, rfl⟩

end Tended

/-! ## Requests -/

/-- A store comes from another by requests. -/
inductive Evolves (s : TypeStore) : TypeStore → Prop where
  | refl : Evolves s s
  | intern {s' : TypeStore} (form : TypeForm) : Evolves s s' → Evolves s (s'.intern form).2
  | retain {s' : TypeStore} (id : TypeId) : Evolves s s' → Evolves s (s'.retain id)
  | release {s' : TypeStore} (id : TypeId) : Evolves s s' → Evolves s (s'.release id)
  | reclaim {s' : TypeStore} : Evolves s s' → Evolves s s'.reclaim

namespace Evolves

theorem trans (h : s.Evolves s') (h' : s'.Evolves s'') : s.Evolves s'' := by
  induction h' with
  | refl => exact h
  | intern form _ ih => exact ih.intern form
  | retain id _ ih => exact ih.retain id
  | release id _ ih => exact ih.release id
  | reclaim _ ih => exact ih.reclaim

theorem foldl_release (h : s.Evolves s') (ids : List TypeId) :
    s.Evolves (ids.foldl TypeStore.release s') := by
  induction ids generalizing s' with
  | nil => exact h
  | cons id ids ih => exact ih (h.release id)

theorem numbered (h : s.Evolves s') (hs : s.Numbered) : s'.Numbered := by
  induction h with
  | refl => exact hs
  | intern form _ ih => exact ih.intern form
  | retain id _ ih => exact ih.retain id
  | release id _ ih => exact ih.release id
  | reclaim _ ih => exact ih.reclaim

theorem tended (h : s.Evolves s') (hs : s.Numbered) (ht : s.Tended) : s'.Tended := by
  induction h with
  | refl => exact ht
  | intern form _ ih => exact ih.intern form
  | retain id _ ih => exact ih.retain id
  | release id hbefore ih => exact ih.release (hbefore.numbered hs) id
  | reclaim hbefore ih => exact ih.reclaim (hbefore.numbered hs)

end Evolves

end TypeStore

end IncrementalBuild
