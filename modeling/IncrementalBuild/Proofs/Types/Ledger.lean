import IncrementalBuild.Types.Store
import Mathlib.Data.List.Count
import Mathlib.Data.List.Flatten
import Mathlib.Data.List.Nodup

/-!
# The ledger of a type store

A store is sound for a list of handles when its objects are numbered in order of
creation, no two of them have one form, the components of an object are older objects
of the store, and every object counts as many holders as there are handles to it and
mentions of it by other objects. Each operation keeps this, for the handles that are out
afterwards; so nothing that is held or mentioned is ever reclaimed.
-/

set_option autoImplicit false

namespace IncrementalBuild

/-- What an object is, apart from its holders. -/
def TypeObject.shape (o : TypeObject) : TypeId × TypeForm := (o.id, o.form)

namespace TypeStore

/-! ## Sound stores -/

/-- The numbers of the objects of a store, oldest first. -/
def ids (s : TypeStore) : List TypeId := s.objects.map (·.id)

/-- The components the objects of a store mention, as often as they do. -/
def mentioned (s : TypeStore) : List TypeId := s.objects.flatMap (·.form.components)

/-- The objects of a store, apart from their holders. -/
def shapes (s : TypeStore) : List (TypeId × TypeForm) := s.objects.map TypeObject.shape

/-- What holds of a store while the handles `held` are out, each as often as it was given. -/
structure Sound (s : TypeStore) (held : List TypeId) : Prop where
  isOpen : s.isClosed = false
  ids_increase : s.ids.Pairwise (· < ·)
  id_lt_next : ∀ id ∈ s.ids, id < s.next
  forms_nodup : (s.objects.map (·.form)).Nodup
  component_lt : ∀ o ∈ s.objects, ∀ c ∈ o.form.components, c < o.id
  mentioned_resident : ∀ id ∈ s.mentioned, id ∈ s.ids
  held_resident : ∀ id ∈ held, id ∈ s.ids
  holders_eq : ∀ o ∈ s.objects, o.holders = held.count o.id + s.mentioned.count o.id

theorem mem_ids {s : TypeStore} {id : TypeId} : id ∈ s.ids ↔ ∃ o ∈ s.objects, o.id = id := by
  simp [ids]

theorem mem_mentioned {s : TypeStore} {id : TypeId} :
    id ∈ s.mentioned ↔ ∃ o ∈ s.objects, id ∈ o.form.components := by
  simp [mentioned]

theorem shapes_modify (s : TypeStore) (id : TypeId) {f : TypeObject → TypeObject}
    (hf : ∀ o, (f o).shape = o.shape) : (s.modify id f).shapes = s.shapes := by
  simp only [shapes, modify, List.map_map]
  refine List.map_congr_left fun o _ => ?_
  simp only [Function.comp_apply]
  split
  · exact hf o
  · rfl

theorem shapes_retain (s : TypeStore) (id : TypeId) : (s.retain id).shapes = s.shapes :=
  shapes_modify s id fun _ => rfl

theorem shapes_releaseOnly (s : TypeStore) (id : TypeId) :
    (s.releaseOnly id).shapes = s.shapes := by
  unfold releaseOnly
  split
  · rfl
  · dsimp only
    split <;> exact shapes_modify s id fun _ => rfl

theorem shapes_releaseAll (s : TypeStore) (ids : List TypeId) :
    (s.releaseAll ids).shapes = s.shapes := by
  unfold releaseAll
  induction ids generalizing s with
  | nil => rfl
  | cons id ids ih => rw [List.foldl_cons, ih, shapes_releaseOnly]

/-- Reclaiming makes and changes no object. -/
theorem shapes_reclaim (s : TypeStore) : s.reclaim.shapes ⊆ s.shapes := by
  fun_induction reclaim s with
  | case1 s hany emptied =>
    rename_i ih
    refine List.Subset.trans ih ?_
    unfold removeWhere
    rw [shapes_releaseAll]
    exact (List.filter_sublist.map _).subset
  | case2 s hnone => exact List.Subset.refl _

theorem ids_eq_of_shapes {s s' : TypeStore} (h : s'.shapes = s.shapes) : s'.ids = s.ids := by
  have := congrArg (List.map Prod.fst) h
  rwa [shapes, shapes, List.map_map, List.map_map] at this

theorem forms_eq_of_shapes {s s' : TypeStore} (h : s'.shapes = s.shapes) :
    s'.objects.map (·.form) = s.objects.map (·.form) := by
  have := congrArg (List.map Prod.snd) h
  rwa [shapes, shapes, List.map_map, List.map_map] at this

theorem mentioned_eq_of_shapes {s s' : TypeStore} (h : s'.shapes = s.shapes) :
    s'.mentioned = s.mentioned := by
  have := congrArg (List.flatMap TypeForm.components) (forms_eq_of_shapes h)
  simpa [mentioned, List.flatMap_map] using this

theorem retainAll_frame (s : TypeStore) (ids : List TypeId) :
    (ids.foldl retain s).shapes = s.shapes ∧ (ids.foldl retain s).next = s.next := by
  induction ids generalizing s with
  | nil => exact ⟨rfl, rfl⟩
  | cons id ids ih =>
    obtain ⟨hshapes, hnext⟩ := ih (s.retain id)
    exact ⟨hshapes.trans (shapes_retain s id), hnext⟩

/-- A store with an object of a form in it that its maker holds. -/
def enter (s : TypeStore) (form : TypeForm) (isPinned : Bool) : TypeStore :=
  { s with
    objects := s.objects ++ [{ id := s.next, form, holders := 1, isPinned }]
    next := s.next + 1
    created := s.created ++ form.table?.toList }

/-- A new object retains its components before it enters. -/
theorem create_eq (s : TypeStore) (form : TypeForm) (isPinned : Bool) :
    s.create form isPinned = (s.next, (form.components.foldl retain s).enter form isPinned) := by
  unfold create enter
  rw [(retainAll_frame s form.components).2]

@[simp]
theorem shapes_enter (s : TypeStore) (form : TypeForm) (isPinned : Bool) :
    (s.enter form isPinned).shapes = s.shapes ++ [(s.next, form)] := List.map_append

@[simp]
theorem ids_enter (s : TypeStore) (form : TypeForm) (isPinned : Bool) :
    (s.enter form isPinned).ids = s.ids ++ [s.next] := List.map_append

@[simp]
theorem mentioned_enter (s : TypeStore) (form : TypeForm) (isPinned : Bool) :
    (s.enter form isPinned).mentioned = s.mentioned ++ form.components := by
  simp [mentioned, enter]

theorem shapes_create (s : TypeStore) (form : TypeForm) (isPinned : Bool) :
    (s.create form isPinned).2.shapes = s.shapes ++ [(s.next, form)] := by
  obtain ⟨hshapes, hnext⟩ := retainAll_frame s form.components
  rw [create_eq, shapes_enter, hshapes, hnext]

theorem next_releaseOnly (s : TypeStore) (id : TypeId) : (s.releaseOnly id).next = s.next := by
  unfold releaseOnly
  split
  · rfl
  · dsimp only
    split <;> rfl

theorem isClosed_releaseOnly (s : TypeStore) (id : TypeId) :
    (s.releaseOnly id).isClosed = s.isClosed := by
  unfold releaseOnly
  split
  · rfl
  · dsimp only
    split <;> rfl

/-! ## Numbered stores -/

/-- What holds of an open store whatever handles are out: its objects are numbered in order of
creation. -/
structure Numbered (s : TypeStore) : Prop where
  isOpen : s.isClosed = false
  ids_increase : s.ids.Pairwise (· < ·)
  id_lt_next : ∀ id ∈ s.ids, id < s.next

theorem Sound.numbered {s : TypeStore} {held : List TypeId} (h : s.Sound held) : s.Numbered :=
  ⟨h.isOpen, h.ids_increase, h.id_lt_next⟩

namespace Numbered

variable {s s' : TypeStore}

theorem nodup_ids (h : s.Numbered) : s.ids.Nodup := h.ids_increase.imp Nat.ne_of_lt

/-- Numbers name objects. -/
theorem eq_of_id_eq (h : s.Numbered) {o o' : TypeObject} (ho : o ∈ s.objects)
    (ho' : o' ∈ s.objects) (hid : o.id = o'.id) : o = o' :=
  List.inj_on_of_nodup_map h.nodup_ids ho ho' hid

theorem get?_eq (h : s.Numbered) {o : TypeObject} (ho : o ∈ s.objects) :
    s.get? o.id = some o := by
  unfold get?
  cases hf : s.objects.find? (·.id == o.id) with
  | none =>
    have := List.find?_eq_none.1 hf o ho
    simp at this
  | some o' =>
    have hid : o'.id = o.id := by simpa using List.find?_some hf
    rw [h.eq_of_id_eq (List.mem_of_find?_eq_some hf) ho hid]

theorem of_shapes (h : s.Numbered) (hshapes : s'.shapes = s.shapes) (hnext : s'.next = s.next)
    (hopen : s'.isClosed = s.isClosed) : s'.Numbered := by
  have hids := ids_eq_of_shapes hshapes
  refine ⟨hopen.trans h.isOpen, hids ▸ h.ids_increase, fun id hid => ?_⟩
  rw [hids] at hid
  rw [hnext]
  exact h.id_lt_next id hid

theorem retain (h : s.Numbered) (id : TypeId) : (s.retain id).Numbered :=
  h.of_shapes (shapes_retain s id) rfl rfl

theorem retainAll (h : s.Numbered) (ids : List TypeId) : (ids.foldl TypeStore.retain s).Numbered := by
  induction ids generalizing s with
  | nil => exact h
  | cons id ids ih => exact ih (h.retain id)

theorem releaseOnly (h : s.Numbered) (id : TypeId) : (s.releaseOnly id).Numbered :=
  h.of_shapes (shapes_releaseOnly s id) (next_releaseOnly s id) (isClosed_releaseOnly s id)

theorem releaseAll (h : s.Numbered) (ids : List TypeId) : (s.releaseAll ids).Numbered := by
  unfold TypeStore.releaseAll
  induction ids generalizing s with
  | nil => exact h
  | cons id ids ih => exact ih (h.releaseOnly id)

/-- An open store only takes the holder away. -/
theorem release_eq (h : s.Numbered) (id : TypeId) : s.release id = s.releaseOnly id := by
  have hopen : (s.releaseOnly id).isClosed = false := by
    rw [isClosed_releaseOnly, h.isOpen]
  simp [TypeStore.release, hopen]

theorem release (h : s.Numbered) (id : TypeId) : (s.release id).Numbered := by
  rw [h.release_eq]
  exact h.releaseOnly id

/-- A new object has the next number. -/
theorem enter (h : s.Numbered) (form : TypeForm) (isPinned : Bool) :
    (s.enter form isPinned).Numbered := by
  refine ⟨h.isOpen, ?_, fun id hid => ?_⟩
  · rw [ids_enter, List.pairwise_append]
    refine ⟨h.ids_increase, List.pairwise_singleton _ _, fun id hid id' hid' => ?_⟩
    rw [List.mem_singleton.1 hid']
    exact h.id_lt_next id hid
  · change id < s.next + 1
    rw [ids_enter, List.mem_append, List.mem_singleton] at hid
    rcases hid with hid | rfl
    · exact Nat.lt_succ_of_lt (h.id_lt_next id hid)
    · exact Nat.lt_succ_self _

theorem create (h : s.Numbered) (form : TypeForm) (isPinned : Bool) :
    (s.create form isPinned).2.Numbered := by
  rw [create_eq]
  exact (h.retainAll form.components).enter form isPinned

theorem intern (h : s.Numbered) (form : TypeForm) : (s.intern form).2.Numbered := by
  unfold TypeStore.intern
  split
  · exact h.retain _
  · exact h.create form false

theorem filter (h : s.Numbered) (p : TypeObject → Bool) :
    Numbered { s with objects := s.objects.filter p } := by
  have hsub : (s.objects.filter p |>.map (·.id)).Sublist s.ids := List.filter_sublist.map _
  exact ⟨h.isOpen, h.ids_increase.sublist hsub, fun id hid => h.id_lt_next id (hsub.subset hid)⟩

theorem removeWhere (h : s.Numbered) (gone : TypeObject → Bool) : (s.removeWhere gone).Numbered :=
  (h.filter (!gone ·)).releaseAll _

theorem emptied (h : s.Numbered) : Numbered { s with queue := [] } :=
  ⟨h.isOpen, h.ids_increase, h.id_lt_next⟩

theorem reclaim (h : s.Numbered) : s.reclaim.Numbered := by
  fun_induction TypeStore.reclaim s with
  | case1 s hany emptied ih => exact ih (h.emptied.removeWhere _)
  | case2 s hnone => exact h.emptied

end Numbered

namespace Sound

variable {s : TypeStore} {held : List TypeId}

/-- Numbers name objects. -/
theorem eq_of_id_eq (h : s.Sound held) {o o' : TypeObject} (ho : o ∈ s.objects)
    (ho' : o' ∈ s.objects) (hid : o.id = o'.id) : o = o' :=
  h.numbered.eq_of_id_eq ho ho' hid

/-- Forms name objects. -/
theorem eq_of_form_eq (h : s.Sound held) {o o' : TypeObject} (ho : o ∈ s.objects)
    (ho' : o' ∈ s.objects) (hform : o.form = o'.form) : o = o' :=
  List.inj_on_of_nodup_map h.forms_nodup ho ho' hform

theorem get?_eq (h : s.Sound held) {o : TypeObject} (ho : o ∈ s.objects) :
    s.get? o.id = some o := h.numbered.get?_eq ho

/-- The order of the handles does not matter. -/
theorem perm (h : s.Sound held) {held' : List TypeId} (hp : held.Perm held') : s.Sound held' where
  isOpen := h.isOpen
  ids_increase := h.ids_increase
  id_lt_next := h.id_lt_next
  forms_nodup := h.forms_nodup
  component_lt := h.component_lt
  mentioned_resident := h.mentioned_resident
  held_resident := fun id hid => h.held_resident id (hp.mem_iff.2 hid)
  holders_eq := fun o ho => by rw [← hp.count_eq o.id]; exact h.holders_eq o ho

/-- A change of nothing but holders and queue keeps a store sound for the handles that
account for the new holders. -/
theorem recount (h : s.Sound held) {s' : TypeStore} {held' : List TypeId}
    (hshapes : s'.shapes = s.shapes) (hnext : s'.next = s.next)
    (hopen : s'.isClosed = s.isClosed) (hheld : ∀ id ∈ held', id ∈ s.ids)
    (hholders : ∀ o ∈ s'.objects, o.holders = held'.count o.id + s.mentioned.count o.id) :
    s'.Sound held' := by
  have hids := ids_eq_of_shapes hshapes
  have hmentioned := mentioned_eq_of_shapes hshapes
  refine ⟨hopen.trans h.isOpen, hids ▸ h.ids_increase, ?_,
    forms_eq_of_shapes hshapes ▸ h.forms_nodup, ?_, ?_, hids ▸ hheld, hmentioned ▸ hholders⟩
  · rw [hids, hnext]
    exact h.id_lt_next
  · intro o ho c hc
    have hmem : o.shape ∈ s.shapes := hshapes ▸ List.mem_map_of_mem ho
    obtain ⟨o₀, ho₀, heq⟩ := List.mem_map.1 hmem
    obtain ⟨hid, hform⟩ := Prod.mk.inj heq
    rw [← hform] at hc
    rw [← hid]
    exact h.component_lt o₀ ho₀ c hc
  · rw [hmentioned, hids]
    exact h.mentioned_resident

/-! ## Holders come and go -/

/-- One handle more. -/
theorem retain (h : s.Sound held) {id : TypeId} (hid : id ∈ s.ids) :
    (s.retain id).Sound (id :: held) := by
  refine h.recount (shapes_retain s id) rfl rfl ?_ ?_
  · intro i hi
    rcases List.mem_cons.1 hi with rfl | hi
    · exact hid
    · exact h.held_resident i hi
  · intro o ho
    obtain ⟨o, hmem, rfl⟩ := List.mem_map.1 ho
    have := h.holders_eq o hmem
    by_cases hoid : o.id = id
    · simp only [List.count_cons, hoid, beq_self_eq_true, if_true] at this ⊢
      omega
    · have hne : (id == o.id) = false := by simpa using fun e => hoid e.symm
      simp only [if_neg hoid, List.count_cons, hne, Bool.false_eq_true, if_false]
      omega

/-- One handle less, and it was one that was out. -/
theorem releaseOnly {id : TypeId} (h : s.Sound (id :: held)) : (s.releaseOnly id).Sound held := by
  obtain ⟨o, ho, rfl⟩ := mem_ids.1 (h.held_resident id (List.mem_cons_self ..))
  have hobjects : (s.releaseOnly o.id).objects =
      s.objects.map fun p => if p.id = o.id then { p with holders := p.holders - 1 } else p := by
    simp only [TypeStore.releaseOnly, h.get?_eq ho, modify]
    split <;> rfl
  refine h.recount (shapes_releaseOnly s o.id) (next_releaseOnly s o.id)
    (isClosed_releaseOnly s o.id) (fun i hi => h.held_resident i (List.mem_cons_of_mem _ hi)) ?_
  intro p hp
  rw [hobjects] at hp
  obtain ⟨p, hmem, rfl⟩ := List.mem_map.1 hp
  have := h.holders_eq p hmem
  by_cases hpid : p.id = o.id
  · simp only [List.count_cons, hpid, beq_self_eq_true, if_true] at this ⊢
    omega
  · have hne : (o.id == p.id) = false := by simpa using fun e => hpid e.symm
    simp only [if_neg hpid, List.count_cons, hne, Bool.false_eq_true, if_false] at this ⊢
    omega

/-- Handles to every one of some objects. -/
theorem retainAll {ids : List TypeId} (h : s.Sound held) (hids : ∀ id ∈ ids, id ∈ s.ids) :
    (ids.foldl TypeStore.retain s).Sound (ids ++ held) := by
  induction ids generalizing s held with
  | nil => exact h
  | cons id ids ih =>
    have hretain := h.retain (hids id (List.mem_cons_self ..))
    have hsame := ids_eq_of_shapes (shapes_retain s id)
    have hsound := ih hretain fun i hi => hsame ▸ hids i (List.mem_cons_of_mem _ hi)
    exact hsound.perm List.perm_middle

/-- All of some handles are given back. -/
theorem releaseAll {ids : List TypeId} (h : s.Sound (ids ++ held)) :
    (s.releaseAll ids).Sound held := by
  induction ids generalizing s with
  | nil => exact h
  | cons id ids ih => exact ih h.releaseOnly

theorem release_eq (h : s.Sound held) (id : TypeId) : s.release id = s.releaseOnly id :=
  h.numbered.release_eq id

theorem release {id : TypeId} (h : s.Sound (id :: held)) : (s.release id).Sound held := by
  rw [h.release_eq]
  exact h.releaseOnly

theorem shapes_release (h : s.Sound held) (id : TypeId) : (s.release id).shapes = s.shapes := by
  rw [h.release_eq, shapes_releaseOnly]

/-! ## Objects come and go -/

/-- Nothing that a store knows has the next number. -/
theorem count_next {ids : List TypeId} (h : s.Sound held) (hids : ∀ id ∈ ids, id ∈ s.ids) :
    ids.count s.next = 0 :=
  List.count_eq_zero.2 fun hmem => Nat.lt_irrefl _ (h.id_lt_next _ (hids _ hmem))

/-- The handles an object has to its components count as its mentions of them once it is in. -/
theorem enter {form : TypeForm} (h : s.Sound (form.components ++ held)) (isPinned : Bool)
    (hnew : form ∉ s.objects.map (·.form)) : (s.enter form isPinned).Sound (s.next :: held) := by
  have hcomponents : ∀ c ∈ form.components, c ∈ s.ids :=
    fun c hc => h.held_resident c (List.mem_append_left _ hc)
  have hheld : ∀ id ∈ held, id ∈ s.ids :=
    fun id hid => h.held_resident id (List.mem_append_right _ hid)
  have hnumbered := h.numbered.enter form isPinned
  have hobjects : (s.enter form isPinned).objects = s.objects ++ [⟨s.next, form, 1, isPinned⟩] := rfl
  refine ⟨hnumbered.isOpen, hnumbered.ids_increase, hnumbered.id_lt_next, ?_, fun o ho => ?_,
    fun id hid => ?_, fun id hid => ?_, fun o ho => ?_⟩
  · rw [hobjects, List.map_append, List.map_singleton]
    refine h.forms_nodup.append (List.nodup_singleton _) ?_
    exact List.disjoint_singleton.2 hnew
  · rw [hobjects, List.mem_append, List.mem_singleton] at ho
    rcases ho with ho | rfl
    · exact h.component_lt o ho
    · exact fun c hc => h.id_lt_next c (hcomponents c hc)
  · rw [mentioned_enter, List.mem_append] at hid
    rw [ids_enter]
    exact List.mem_append_left _ (hid.elim (h.mentioned_resident id) (hcomponents id))
  · rw [ids_enter, List.mem_append, List.mem_singleton]
    rcases List.mem_cons.1 hid with rfl | hid
    · exact .inr rfl
    · exact .inl (hheld id hid)
  · rw [hobjects, List.mem_append, List.mem_singleton] at ho
    rw [mentioned_enter, List.count_append]
    rcases ho with ho | rfl
    · have hne : s.next ≠ o.id := (Nat.ne_of_lt (h.id_lt_next _ (mem_ids.2 ⟨o, ho, rfl⟩))).symm
      have hholders := h.holders_eq o ho
      rw [List.count_append] at hholders
      rw [List.count_cons_of_ne hne, hholders]
      omega
    · dsimp only
      rw [List.count_cons_self, h.count_next hheld, h.count_next h.mentioned_resident,
        h.count_next hcomponents]

/-- A form the store does not have becomes an object, which its maker holds. -/
theorem create (h : s.Sound held) {form : TypeForm} (isPinned : Bool)
    (hnew : form ∉ s.objects.map (·.form)) (hcomponents : ∀ c ∈ form.components, c ∈ s.ids) :
    (s.create form isPinned).2.Sound (s.next :: held) := by
  obtain ⟨hshapes, hnext⟩ := retainAll_frame s form.components
  rw [create_eq, ← hnext]
  refine (h.retainAll hcomponents).enter isPinned ?_
  rwa [forms_eq_of_shapes hshapes]

/-- Interning yields one handle more. -/
theorem intern (h : s.Sound held) {form : TypeForm}
    (hcomponents : ∀ c ∈ form.components, c ∈ s.ids) :
    (s.intern form).2.Sound ((s.intern form).1 :: held) := by
  unfold TypeStore.intern
  split
  · rename_i o ho
    exact h.retain (mem_ids.2 ⟨o, List.mem_of_find?_eq_some ho, rfl⟩)
  · rename_i hnone
    refine h.create false ?_ hcomponents
    intro hmem
    obtain ⟨o, ho, hform⟩ := List.mem_map.1 hmem
    have := List.find?_eq_none.1 hnone o ho
    simp [hform] at this

/-- Objects nobody holds can go, and leave the handles their components had through them. -/
theorem without (h : s.Sound held) {gone : TypeObject → Bool}
    (hgone : ∀ o ∈ s.objects, gone o = true → o.holders = 0) :
    Sound { s with objects := s.objects.filter (!gone ·) }
      ((s.objects.filter gone).flatMap (·.form.components) ++ held) := by
  -- an object without holders is neither mentioned nor held
  have hfree : ∀ o ∈ s.objects, gone o = true → o.id ∉ s.mentioned ∧ o.id ∉ held := by
    intro o ho hg
    have := h.holders_eq o ho
    rw [hgone o ho hg] at this
    exact ⟨List.count_eq_zero.1 (by omega), List.count_eq_zero.1 (by omega)⟩
  have hstays : ∀ id ∈ s.ids, (id ∈ s.mentioned ∨ id ∈ held) →
      id ∈ (s.objects.filter (!gone ·)).map (·.id) := by
    intro id hid huse
    obtain ⟨o, ho, rfl⟩ := mem_ids.1 hid
    refine List.mem_map.2 ⟨o, List.mem_filter.2 ⟨ho, ?_⟩, rfl⟩
    by_contra hg
    obtain ⟨hm, hh⟩ := hfree o ho (by simpa using hg)
    exact huse.elim hm hh
  have hsub : s.objects.filter (!gone ·) |>.Sublist s.objects := List.filter_sublist
  have hcount : ∀ id, s.mentioned.count id =
      ((s.objects.filter gone).flatMap (·.form.components)).count id +
        ((s.objects.filter (!gone ·)).flatMap (·.form.components)).count id := by
    intro id
    have hperm := (List.filter_append_perm gone s.objects).flatMap_right (·.form.components)
    rw [List.flatMap_append] at hperm
    simpa [mentioned, List.count_append] using (hperm.count_eq id).symm
  have hmentioned : ∀ id ∈ (s.objects.filter (!gone ·)).flatMap (·.form.components),
      id ∈ s.mentioned := by
    intro id hid
    obtain ⟨o, ho, hc⟩ := List.mem_flatMap.1 hid
    exact List.mem_flatMap.2 ⟨o, hsub.subset ho, hc⟩
  refine ⟨h.isOpen, h.ids_increase.sublist (hsub.map _), ?_, h.forms_nodup.sublist (hsub.map _),
    fun o ho => h.component_lt o (hsub.subset ho), ?_, ?_, ?_⟩
  · exact fun id hid => h.id_lt_next id ((hsub.map _).subset hid)
  · exact fun id hid => hstays id (h.mentioned_resident id (hmentioned id hid))
      (.inl (hmentioned id hid))
  · intro id hid
    rcases List.mem_append.1 hid with hid | hid
    · obtain ⟨o, ho, hc⟩ := List.mem_flatMap.1 hid
      have hm : id ∈ s.mentioned :=
        mem_mentioned.2 ⟨o, (List.mem_filter.1 ho).1, hc⟩
      exact hstays id (h.mentioned_resident id hm) (.inl hm)
    · exact hstays id (h.held_resident id hid) (.inr hid)
  · intro o ho
    have := h.holders_eq o (hsub.subset ho)
    rw [List.count_append]
    have hsplit := hcount o.id
    simp only [mentioned] at hsplit this ⊢
    omega

/-- Objects nobody holds can go; the handles their components had through them are given
back. -/
theorem removeWhere (h : s.Sound held) {gone : TypeObject → Bool}
    (hgone : ∀ o ∈ s.objects, gone o = true → o.holders = 0) :
    (s.removeWhere gone).Sound held :=
  (h.without hgone).releaseAll

/-- A new store is sound for its own holdings. -/
theorem initial : TypeStore.initial.Sound TypeStore.initial.ownHoldings where
  isOpen := by decide +kernel
  ids_increase := by decide +kernel
  id_lt_next := by decide +kernel
  forms_nodup := by decide +kernel
  component_lt := by decide +kernel
  mentioned_resident := by decide +kernel
  held_resident := by decide +kernel
  holders_eq := by decide +kernel

/-- Reclaiming leaves a sound store. -/
theorem reclaim (h : s.Sound held) : s.reclaim.Sound held := by
  fun_induction TypeStore.reclaim s with
  | case1 s hany emptied ih =>
    refine ih (Sound.removeWhere (s := emptied) ?_ ?_)
    · exact ⟨h.isOpen, h.ids_increase, h.id_lt_next, h.forms_nodup, h.component_lt,
        h.mentioned_resident, h.held_resident, h.holders_eq⟩
    · intro o _ ho
      have hdead : isDead o = true := (Bool.and_eq_true_iff.1 ho).1
      simpa using (Bool.and_eq_true_iff.1 hdead).2
  | case2 s hnone =>
    exact ⟨h.isOpen, h.ids_increase, h.id_lt_next, h.forms_nodup, h.component_lt,
      h.mentioned_resident, h.held_resident, h.holders_eq⟩

end Sound

end TypeStore

end IncrementalBuild
