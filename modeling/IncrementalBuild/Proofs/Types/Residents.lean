import IncrementalBuild.Proofs.Types.Reclaiming

/-!
# The residents of a type store

After reclaiming, the objects of a store are the pinned ones and those its client reaches
from a handle along components, and their entries are the ones they had. Objects enter a
table one by one when they are made, and leave it only by being reclaimed; so the books of
each table are those of what was made, what is there and what is gone.
-/

set_option autoImplicit false

namespace IncrementalBuild

namespace TypeStore

variable {s s' : TypeStore} {held held' handles : List TypeId}

/-! ## Reached objects -/

/-- The numbers that are reached from handles along the components of objects. -/
inductive Reached (s : TypeStore) (handles : List TypeId) : TypeId → Prop where
  | handle {id : TypeId} : id ∈ handles → Reached s handles id
  | component {o : TypeObject} {c : TypeId} :
      o ∈ s.objects → Reached s handles o.id → c ∈ o.form.components → Reached s handles c

theorem Reached.mono (hsub : s.shapes ⊆ s'.shapes) {id : TypeId} (h : s.Reached handles id) :
    s'.Reached handles id := by
  induction h with
  | handle hmem => exact .handle hmem
  | @component o c ho _ hc ih =>
    obtain ⟨o', ho', hshape⟩ := List.mem_map.1 (hsub (List.mem_map_of_mem ho))
    obtain ⟨hid, hform⟩ := Prod.mk.inj hshape
    exact .component ho' (hid.symm ▸ ih) (hform.symm ▸ hc)

namespace Sound

/-- What is reached from handles that are out is resident. -/
theorem mem_ids_of_reached (hs : s.Sound held) (hheld : handles ⊆ held) {id : TypeId}
    (h : s.Reached handles id) : id ∈ s.ids := by
  induction h with
  | handle hmem => exact hs.held_resident _ (hheld hmem)
  | component ho _ hc => exact hs.component_mem_ids ho hc

/-- Objects that have the number of an object of a store with all their shapes have its
form. -/
theorem form_eq_of_subset (hs : s.Sound held) (hsub : s'.shapes ⊆ s.shapes) {o o' : TypeObject}
    (ho : o ∈ s.objects) (ho' : o' ∈ s'.objects) (hid : o'.id = o.id) : o'.form = o.form := by
  obtain ⟨p, hp, hshape⟩ := List.mem_map.1 (hsub (List.mem_map_of_mem ho'))
  obtain ⟨hpid, hform⟩ := Prod.mk.inj hshape
  rw [← hform, hs.eq_of_id_eq hp ho (hpid.trans hid)]

/-- What is reached from handles that stay out is reached among the objects that stay. -/
theorem reached_of_subset (hs : s.Sound held) (hs' : s'.Sound held') (hsub : s'.shapes ⊆ s.shapes)
    (hheld : handles ⊆ held') {id : TypeId} (h : s.Reached handles id) :
    s'.Reached handles id := by
  induction h with
  | handle hmem => exact .handle hmem
  | @component o c ho _ hc ih =>
    obtain ⟨o', ho', hid⟩ := mem_ids.1 (hs'.mem_ids_of_reached hheld ih)
    have hform := hs.form_eq_of_subset hsub ho ho' hid
    exact .component ho' (hid.symm ▸ ih) (hform.symm ▸ hc)

/-- If nothing is dead, every object that is not pinned is reached from a handle of the
client. -/
theorem reached_of_alive (hs : s.Sound (handles ++ TypeStore.initial.ownHoldings))
    (ht : s.Tended) (halive : ∀ o ∈ s.objects, isDead o = false) {o : TypeObject}
    (ho : o ∈ s.objects) (hfree : o.isPinned = false) : s.Reached handles o.id := by
  -- by induction from the highest number down: whoever mentions an object is younger
  induction hn : s.next - o.id using Nat.strongRecOn generalizing o with
  | _ n ih =>
    have hpos : o.holders ≠ 0 := by
      intro hzero
      have hdead := halive o ho
      rw [isDead_eq_true.2 ⟨hfree, hzero⟩] at hdead
      cases hdead
    have hcount := hs.holders_eq o ho
    by_cases hmentioned : o.id ∈ s.mentioned
    · obtain ⟨p, hp, hc⟩ := mem_mentioned.1 hmentioned
      have hless : s.next - p.id < n := by
        have hyounger := hs.component_lt p hp o.id hc
        have hnext := hs.id_lt_next p.id (mem_ids.2 ⟨p, hp, rfl⟩)
        exact hn ▸ Nat.sub_lt_sub_left (Nat.lt_trans hyounger hnext) hyounger
      have hpfree : p.isPinned = false := by
        cases hpinned : p.isPinned with
        | false => rfl
        | true =>
          rw [ht.components_eq_nil hp hpinned] at hc
          cases hc
      exact .component hp (ih (s.next - p.id) hless hp hpfree rfl) hc
    · have hzero := List.count_eq_zero.2 hmentioned
      rw [hzero, Nat.add_zero] at hcount
      have hmem : o.id ∈ handles ++ TypeStore.initial.ownHoldings :=
        List.count_pos_iff.1 (hcount ▸ Nat.pos_of_ne_zero hpos)
      rcases List.mem_append.1 hmem with hmem | hmem
      · exact .handle hmem
      · exact absurd hmem (ht.not_mem_ownHoldings hs.numbered ho hfree)

theorem find?_eq (hs : s.Sound held) {o : TypeObject} (ho : o ∈ s.objects) :
    s.find? o.form = some o := by
  unfold find?
  cases hf : s.objects.find? (·.form == o.form) with
  | none =>
    have := List.find?_eq_none.1 hf o ho
    simp at this
  | some o' =>
    have hform : o'.form = o.form := by simpa using List.find?_some hf
    rw [hs.eq_of_form_eq (List.mem_of_find?_eq_some hf) ho hform]

end Sound

/-- Objects of one shape in two tended stores are both pinned or both not. -/
theorem Tended.isPinned_eq (ht : s.Tended) (ht' : s'.Tended) (hs : s.Sound held)
    (hs' : s'.Sound held') {o o' : TypeObject} (ho : o ∈ s.objects) (ho' : o' ∈ s'.objects)
    (hshape : o'.shape = o.shape) : o'.isPinned = o.isPinned := by
  have hid : o'.id = o.id := congrArg Prod.fst hshape
  cases hpinned : o.isPinned with
  | true => exact ht'.isPinned_of_mem_initial hs'.numbered ho' (ht.mem_initial ho hpinned) hid
  | false =>
    cases hpinned' : o'.isPinned with
    | false => rfl
    | true =>
      rw [ht.isPinned_of_mem_initial hs.numbered ho (ht'.mem_initial ho' hpinned') hid.symm] at hpinned
      cases hpinned

/-- After reclaiming, nothing is dead. -/
theorem Tended.alive_reclaim (ht : s.Tended) (hs : s.Sound held) :
    ∀ o ∈ s.reclaim.objects, isDead o = false := by
  intro o ho
  rw [← Bool.not_eq_true]
  intro hdead
  have hqueued := (ht.reclaim hs.numbered).queued o ho hdead
  rw [queue_reclaim] at hqueued
  cases hqueued

section Kept

variable (hs : s.Sound (handles ++ TypeStore.initial.ownHoldings))
include hs

/-- Reclaiming takes nothing away that a client reaches from its handles. -/
theorem Sound.reached_reclaim {id : TypeId} :
    s.reclaim.Reached handles id ↔ s.Reached handles id :=
  ⟨Reached.mono (shapes_reclaim s),
    hs.reached_of_subset (Sound.reclaim hs) (shapes_reclaim s) (List.subset_append_left ..)⟩

/-- An object that is pinned, or that a client reaches, is there after reclaiming. -/
theorem Tended.mem_ids_reclaim (ht : s.Tended) {o : TypeObject} (ho : o ∈ s.objects)
    (hkept : o.isPinned = true ∨ s.Reached handles o.id) : o.id ∈ s.reclaim.ids := by
  rcases hkept with hpinned | hreach
  · have hfounder := ht.mem_initial ho hpinned
    rw [← (ht.reclaim hs.numbered).pinned] at hfounder
    obtain ⟨o', ho', hshape⟩ := List.mem_map.1 hfounder
    exact mem_ids.2 ⟨o', (List.mem_filter.1 ho').1, congrArg Prod.fst hshape⟩
  · exact (Sound.reclaim hs).mem_ids_of_reached (List.subset_append_left ..)
      (hs.reached_reclaim.2 hreach)

/-- An object has its entry after reclaiming exactly if it is pinned or a client reaches it. -/
theorem Tended.kept_iff (ht : s.Tended) {o : TypeObject} (ho : o ∈ s.objects) :
    (∃ o', s.reclaim.find? o.form = some o' ∧ o'.id = o.id) ↔
      o.isPinned = true ∨ s.Reached handles o.id := by
  have hs' := Sound.reclaim hs
  have ht' := ht.reclaim hs.numbered
  have hsub := shapes_reclaim s
  constructor
  · rintro ⟨o', hfind, hid⟩
    have ho' := List.mem_of_find?_eq_some hfind
    have hform := hs.form_eq_of_subset hsub ho ho' hid
    have hpinned := ht.isPinned_eq ht' hs hs' ho ho' (Prod.ext hid hform)
    cases hfree : o.isPinned with
    | true => exact .inl rfl
    | false =>
      rw [← hid, ← hs.reached_reclaim]
      exact .inr (hs'.reached_of_alive ht' (ht.alive_reclaim hs) ho' (hpinned.trans hfree))
  · intro hkept
    obtain ⟨o', ho', hid⟩ := mem_ids.1 (ht.mem_ids_reclaim hs ho hkept)
    have hform := hs.form_eq_of_subset hsub ho ho' hid
    exact ⟨o', hform ▸ hs'.find?_eq ho', hid⟩

end Kept

/-! ## Counts -/

theorem map_fst_shapes (s : TypeStore) : s.shapes.map Prod.fst = s.ids := by
  rw [shapes, ids, List.map_map]
  rfl

theorem Sound.nodup_ids (hs : s.Sound held) : s.ids.Nodup := hs.numbered.nodup_ids

theorem Sound.nodup_shapes (hs : s.Sound held) : s.shapes.Nodup :=
  List.Nodup.of_map Prod.fst (s.map_fst_shapes ▸ hs.nodup_ids)

theorem liveCount_eq (s : TypeStore) (table : TypeTable) :
    s.liveCount table = s.shapes.countP (·.2.table? == some table) := by
  rw [liveCount, shapes, List.countP_map]
  rfl

/-- The number of objects of all tables. -/
def residentCount (s : TypeStore) : Nat :=
  s.liveCount .ints + s.liveCount .arrays + s.liveCount .pointers + s.liveCount .functions

/-- Objects that are counted in some table are as many as the tables count together. -/
theorem length_eq_countP {objects : List TypeObject}
    (h : ∀ o ∈ objects, ∃ table, o.form.table? = some table) :
    objects.length = objects.countP (·.form.table? == some .ints) +
      objects.countP (·.form.table? == some .arrays) +
      objects.countP (·.form.table? == some .pointers) +
      objects.countP (·.form.table? == some .functions) := by
  induction objects with
  | nil => rfl
  | cons o objects ih =>
    obtain ⟨⟨table, htable⟩, hrest⟩ := List.forall_mem_cons.1 h
    have := ih hrest
    simp only [List.length_cons, List.countP_cons, htable]
    cases table <;> simp <;> omega

theorem liveCount_reclaim (s : TypeStore) (table : TypeTable) :
    s.reclaimed.countP (·.form.table? == some table) + s.reclaim.liveCount table =
      s.liveCount table := by
  have hcount := s.perm_reclaim.countP_eq (·.2.table? == some table)
  rw [List.countP_append, List.countP_map] at hcount
  rw [liveCount_eq, liveCount_eq, ← hcount]
  rfl

/-- The number that reclaiming reports is the number of entries that are gone. -/
theorem Tended.reclaimCount_add (ht : s.Tended) (hs : s.Sound held) :
    s.reclaimCount + s.reclaim.residentCount = s.residentCount := by
  have htables : ∀ o ∈ s.reclaimed, ∃ table, o.form.table? = some table := by
    intro o ho
    have hmem := s.perm_reclaim.subset (List.mem_append_left _ (List.mem_map_of_mem ho))
    obtain ⟨p, hp, hshape⟩ := List.mem_map.1 hmem
    obtain ⟨hid, hform⟩ := Prod.mk.inj hshape
    rw [← hform]
    refine ht.exists_table hs hp (Bool.eq_false_iff.2 fun hpinned => ?_)
    -- a pinned object is still there, and its number is not there twice
    have hkept := ht.mem_initial hp hpinned
    rw [← (ht.reclaim hs.numbered).pinned] at hkept
    obtain ⟨q, hq, hqshape⟩ := List.mem_map.1 hkept
    have hnodup := (s.perm_reclaim.map Prod.fst).nodup_iff.2 (s.map_fst_shapes ▸ hs.nodup_ids)
    rw [List.map_append] at hnodup
    refine (List.nodup_append.1 hnodup).2.2 o.id ?_ q.id ?_ ?_
    · exact List.mem_map.2 ⟨_, List.mem_map_of_mem ho, rfl⟩
    · exact List.mem_map.2 ⟨_, List.mem_map_of_mem (List.mem_filter.1 hq).1, rfl⟩
    · exact ((congrArg Prod.fst hqshape).trans hid).symm
  have hints := s.liveCount_reclaim .ints
  have harrays := s.liveCount_reclaim .arrays
  have hpointers := s.liveCount_reclaim .pointers
  have hfunctions := s.liveCount_reclaim .functions
  have hlength := length_eq_countP htables
  simp only [reclaimCount, residentCount]
  omega

theorem created_releaseOnly (s : TypeStore) (id : TypeId) :
    (s.releaseOnly id).created = s.created := by
  unfold releaseOnly
  split
  · rfl
  · dsimp only
    split <;> rfl

theorem created_releaseAll (s : TypeStore) (ids : List TypeId) :
    (s.releaseAll ids).created = s.created := by
  unfold releaseAll
  induction ids generalizing s with
  | nil => rfl
  | cons id ids ih => rw [List.foldl_cons, ih, created_releaseOnly]

theorem created_reclaim (s : TypeStore) : s.reclaim.created = s.created := by
  fun_induction reclaim s with
  | case1 s hany emptied ih =>
    rw [ih, removeWhere, created_releaseAll]
  | case2 s hnone => rfl

theorem created_retainAll (s : TypeStore) (ids : List TypeId) :
    (ids.foldl retain s).created = s.created := by
  induction ids generalizing s with
  | nil => rfl
  | cons id ids ih => exact ih (s.retain id)

/-- Interning makes an object of the form or none. -/
theorem intern_created (s : TypeStore) (form : TypeForm) :
    ((s.intern form).2.created = s.created ∧ (s.intern form).2.shapes ⊆ s.shapes) ∨
    ∃ id form', (s.intern form).2.created = s.created ++ form'.table?.toList ∧
      (s.intern form).2.shapes = s.shapes ++ [(id, form')] := by
  unfold intern
  split
  · rename_i o ho
    exact .inl ⟨rfl, (shapes_retain s o.id) ▸ List.Subset.refl _⟩
  · have hcreated := created_retainAll s form.components
    refine .inr ⟨s.next, form, ?_, shapes_create s form false⟩
    simp only [create, hcreated]

/-- What a store counts is what a later store with no new objects counts and what that has
lost. -/
theorem Sound.liveCount_lost (hs : s.Sound held) (hs' : s'.Sound held')
    (hsub : s'.shapes ⊆ s.shapes) (table : TypeTable) :
    s.liveCount table = s'.liveCount table +
      (s.objects.filter fun o => !decide (o.id ∈ s'.ids)).countP
        (·.form.table? == some table) := by
  have hstay : ((s.objects.filter fun o => decide (o.id ∈ s'.ids)).map TypeObject.shape).Perm
      s'.shapes := by
    have hnodup := hs.nodup_shapes.sublist
      ((List.filter_sublist (p := fun o => decide (o.id ∈ s'.ids))).map TypeObject.shape)
    refine (List.perm_ext_iff_of_nodup hnodup hs'.nodup_shapes).2 fun x => ⟨fun hx => ?_, fun hx => ?_⟩
    · obtain ⟨o, ho, rfl⟩ := List.mem_map.1 hx
      obtain ⟨hmem, hid⟩ := List.mem_filter.1 ho
      obtain ⟨o', ho', hid'⟩ := mem_ids.1 (of_decide_eq_true hid)
      have hform := hs.form_eq_of_subset hsub hmem ho' hid'
      exact List.mem_map.2 ⟨o', ho', Prod.ext hid' hform⟩
    · obtain ⟨o, ho, rfl⟩ := List.mem_map.1 (hsub hx)
      obtain ⟨o', ho', hshape⟩ := List.mem_map.1 hx
      have hid : o.id ∈ s'.ids := mem_ids.2 ⟨o', ho', congrArg Prod.fst hshape⟩
      exact List.mem_map_of_mem (List.mem_filter.2 ⟨ho, decide_eq_true hid⟩)
  have hsplit := (List.filter_append_perm (fun o => decide (o.id ∈ s'.ids)) s.objects).countP_eq
    (·.form.table? == some table)
  have hcount := hstay.countP_eq (·.2.table? == some table)
  rw [List.countP_map] at hcount
  rw [List.countP_append] at hsplit
  rw [liveCount_eq s', ← hcount, liveCount, ← hsplit]
  rfl

end TypeStore

namespace TypeClient

open TypeStore

variable {c : TypeClient}

/-! ## What a run made and lost -/

/-- The objects that are in the store before a request is served and not after. -/
def evicted (c : TypeClient) (r : TypeRequest) : List TypeObject :=
  c.store.objects.filter fun o => !decide (o.id ∈ (c.serve r).store.ids)

/-- The objects that are lost in serving requests one after another. -/
def evictions (c : TypeClient) : List TypeRequest → List TypeObject
  | [] => []
  | r :: rs => c.evicted r ++ (c.serve r).evictions rs

/-- Serving a request makes an object or makes none. -/
theorem Sound.serve_created (h : c.Sound) (r : TypeRequest) :
    ((c.serve r).store.created = c.store.created ∧
      (c.serve r).store.shapes ⊆ c.store.shapes) ∨
    ∃ id form, (c.serve r).store.created = c.store.created ++ form.table?.toList ∧
      (c.serve r).store.shapes = c.store.shapes ++ [(id, form)] := by
  obtain heq | ⟨form, -, heq⟩ | ⟨handle, -, heq⟩ | ⟨handle, hmem, heq⟩ | heq := c.serve_cases r
  · rw [heq]
    exact .inl ⟨rfl, List.Subset.refl _⟩
  · rw [heq]
    exact c.store.intern_created form
  · rw [heq]
    exact .inl ⟨rfl, (shapes_retain c.store handle) ▸ List.Subset.refl _⟩
  · rw [heq]
    have hout := h.out hmem
    refine .inl ⟨?_, (hout.shapes_release handle) ▸ List.Subset.refl _⟩
    exact (congrArg created (hout.release_eq handle)).trans (created_releaseOnly c.store handle)
  · rw [heq]
    exact .inl ⟨created_reclaim c.store, shapes_reclaim c.store⟩

/-- What was ever made in a table is there or was lost, by one request. -/
theorem Sound.serve_books (h : c.Sound) (r : TypeRequest) (table : TypeTable) :
    (c.serve r).store.createdCount table + c.store.liveCount table =
      c.store.createdCount table + ((c.serve r).store.liveCount table +
        (c.evicted r).countP (·.form.table? == some table)) := by
  obtain ⟨hcreated, hsub⟩ | ⟨id, form, hcreated, hshapes⟩ := h.serve_created r
  · have hlost := TypeStore.Sound.liveCount_lost h (h.serve r) hsub table
    rw [createdCount, createdCount, hcreated, hlost, evicted]
  · have hids : (c.serve r).store.ids = c.store.ids ++ [id] := by
      rw [← map_fst_shapes, hshapes, List.map_append, map_fst_shapes]
      rfl
    have hnone : c.evicted r = [] := by
      refine List.filter_eq_nil_iff.2 fun o ho => ?_
      have hmem : o.id ∈ (c.serve r).store.ids := by
        rw [hids]
        exact List.mem_append_left _ (TypeStore.mem_ids.2 ⟨o, ho, rfl⟩)
      simp [hmem]
    rw [hnone, createdCount, createdCount, hcreated, liveCount_eq (c.serve r).store, hshapes,
      List.countP_append, ← liveCount_eq, List.count_append, List.countP_singleton]
    cases form.table? with
    | none => simp
    | some t =>
      by_cases ht : t = table
      · simp [ht]
        omega
      · simp [ht]

/-- What was ever made in a table is there or was lost, by a run of requests. -/
theorem Sound.books (h : c.Sound) (requests : List TypeRequest) (table : TypeTable) :
    (requests.foldl TypeClient.serve c).store.createdCount table + c.store.liveCount table =
      c.store.createdCount table +
        ((requests.foldl TypeClient.serve c).store.liveCount table +
          (c.evictions requests).countP (·.form.table? == some table)) := by
  induction requests generalizing c with
  | nil => simp [evictions]
  | cons r rs ih =>
    have hstep := h.serve_books r table
    have hrest := ih (h.serve r)
    rw [List.foldl_cons, evictions, List.countP_append]
    omega

/-- In each table, what a client ever made is there or was lost. -/
theorem createdCount_run (requests : List TypeRequest) (table : TypeTable) :
    (run requests).store.createdCount table = (run requests).store.liveCount table +
      (evictions {} requests).countP (·.form.table? == some table) := by
  have hbooks := Sound.books (c := {}) TypeStore.Sound.initial requests table
  have hstart : initial.createdCount table = initial.liveCount table := by
    cases table <;> decide +kernel
  change (run requests).store.createdCount table + initial.liveCount table =
    initial.createdCount table + ((run requests).store.liveCount table + _) at hbooks
  omega

/-! ## Reclaiming at any time -/

theorem serve_evolves (c : TypeClient) (r : TypeRequest) : c.store.Evolves (c.serve r).store := by
  obtain heq | ⟨form, -, heq⟩ | ⟨handle, -, heq⟩ | ⟨handle, -, heq⟩ | heq := c.serve_cases r
  · rw [heq]
    exact .refl
  · rw [heq]
    exact Evolves.refl.intern form
  · rw [heq]
    exact Evolves.refl.retain handle
  · rw [heq]
    exact Evolves.refl.release handle
  · rw [heq]
    exact Evolves.refl.reclaim

theorem run_evolves (requests : List TypeRequest) : initial.Evolves (run requests).store := by
  have hrun : ∀ c : TypeClient, c.store.Evolves (requests.foldl serve c).store := by
    induction requests with
    | nil => exact fun c => .refl
    | cons r rs ih => exact fun c => (c.serve_evolves r).trans (ih (c.serve r))
  exact hrun {}

theorem tended_run (requests : List TypeRequest) : (run requests).store.Tended :=
  (run_evolves requests).tended TypeStore.Sound.initial.numbered Tended.initial

/-- After any run of requests, reclaiming is a number of rounds, at most one more than there
are objects, each of which finds something in the queue and the last of which leaves it empty.
Every object that is there afterwards was there before; and an object has its entry afterwards
exactly if it is pinned or reached from a handle, which it then is as before. The number
reported is that of the entries gone. And in each table, what was ever made is what is there
and what was lost in the run. -/
theorem reclaim_leaves_reached (requests : List TypeRequest) :
    let c := run requests
    (∃ rounds ≤ c.store.objects.length + 1, c.store.reclaim = reclaimRound^[rounds] c.store ∧
      ∀ k < rounds, (reclaimRound^[k] c.store).queue ≠ []) ∧
    c.store.reclaim.queue = [] ∧
    (∀ o' ∈ c.store.reclaim.objects, ∃ o ∈ c.store.objects,
      o'.id = o.id ∧ o'.form = o.form ∧ o'.isPinned = o.isPinned) ∧
    (∀ o ∈ c.store.objects, (∃ o', c.store.reclaim.find? o.form = some o' ∧ o'.id = o.id) ↔
      o.isPinned = true ∨ c.store.Reached c.handles o.id) ∧
    (∀ id, c.store.Reached c.handles id → ∃ o ∈ c.store.objects, o.id = id) ∧
    (∀ id, c.store.reclaim.Reached c.handles id ↔ c.store.Reached c.handles id) ∧
    c.store.reclaimCount + c.store.reclaim.residentCount = c.store.residentCount ∧
    ∀ table, c.store.createdCount table = c.store.liveCount table +
      (evictions {} requests).countP (·.form.table? == some table) := by
  intro c
  have hs : c.Sound := sound_run requests
  have ht : c.store.Tended := tended_run requests
  have hsub := shapes_reclaim c.store
  refine ⟨exists_rounds c.store, queue_reclaim c.store, ?_, fun o ho => ht.kept_iff hs ho, ?_,
    fun id => hs.reached_reclaim, ht.reclaimCount_add hs, createdCount_run requests⟩
  · intro o' ho'
    obtain ⟨o, ho, hshape⟩ := List.mem_map.1 (hsub (List.mem_map_of_mem ho'))
    obtain ⟨hid, hform⟩ := Prod.mk.inj hshape
    have hpinned := ht.isPinned_eq (ht.reclaim hs.numbered) hs (TypeStore.Sound.reclaim hs) ho ho' hshape.symm
    exact ⟨o, ho, hid.symm, hform.symm, hpinned⟩
  · intro id hreach
    exact TypeStore.mem_ids.1
      (TypeStore.Sound.mem_ids_of_reached hs (List.subset_append_left ..) hreach)

-- the array goes with its last handle, and the element with the array
example : ((run [.named "u5", .array 30 4, .drop 30, .drop 31]).store.reclaimCount,
    (evictions {} [.named "u5", .array 30 4, .drop 30, .drop 31, .reclaim]).map (·.id)) =
      (2, [30, 31]) := by decide +kernel

end TypeClient

end IncrementalBuild
