import IncrementalBuild.Proofs.Types.Residents
import IncrementalBuild.Session.Signature

/-!
# How a type store evolves

A number that a store has given away never names anything but the object it was given to,
whatever is asked of the store. What is held all the time is then there all the time, with
everything it is made of, as it was. Reading the types of a signature is nothing but asking a
store for objects and letting go of them.
-/

set_option autoImplicit false

namespace IncrementalBuild

namespace TypeStore

variable {s s' s'' : TypeStore} {held handles : List TypeId}

/-! ## Numbers name objects for ever -/

/-- A later store gives away other numbers, and has under the old ones only what was there. -/
structure Continues (s s' : TypeStore) : Prop where
  next_le : s.next ≤ s'.next
  old : ∀ x ∈ s'.shapes, x.1 < s.next → x ∈ s.shapes

theorem Continues.trans (h : s.Continues s') (h' : s'.Continues s'') : s.Continues s'' where
  next_le := Nat.le_trans h.next_le h'.next_le
  old := by
    intro x hx hlt
    have hmiddle := h'.old x hx (Nat.lt_of_lt_of_le hlt h.next_le)
    exact h.old x hmiddle hlt

theorem continues_of_subset (hnext : s'.next = s.next) (hsub : s'.shapes ⊆ s.shapes) :
    s.Continues s' :=
  ⟨Nat.le_of_eq hnext.symm, fun _ hx _ => hsub hx⟩

theorem next_releaseAll (s : TypeStore) (ids : List TypeId) : (s.releaseAll ids).next = s.next := by
  unfold releaseAll
  induction ids generalizing s with
  | nil => rfl
  | cons id ids ih => rw [List.foldl_cons, ih, next_releaseOnly]

theorem next_reclaim (s : TypeStore) : s.reclaim.next = s.next := by
  fun_induction reclaim s with
  | case1 s hany emptied ih => rw [ih, removeWhere, next_releaseAll]
  | case2 s hnone => rfl

/-- Interning gives away the next number or none. -/
theorem continues_intern (s : TypeStore) (form : TypeForm) : s.Continues (s.intern form).2 := by
  unfold intern
  split
  · rename_i o ho
    exact continues_of_subset rfl (shapes_retain s o.id ▸ List.Subset.refl _)
  · refine ⟨Nat.le_succ s.next, fun x hx hlt => ?_⟩
    rw [shapes_create, List.mem_append, List.mem_singleton] at hx
    rcases hx with hx | rfl
    · exact hx
    · exact absurd hlt (Nat.lt_irrefl _)

theorem Evolves.continues (h : s.Evolves s') (hs : s.Numbered) : s.Continues s' := by
  induction h with
  | refl => exact continues_of_subset rfl (List.Subset.refl _)
  | @intern s' form _ ih => exact ih.trans (continues_intern s' form)
  | @retain s' id _ ih =>
    exact ih.trans (continues_of_subset rfl (shapes_retain s' id ▸ List.Subset.refl _))
  | @release s' id hbefore ih =>
    rw [(hbefore.numbered hs).release_eq]
    refine ih.trans (continues_of_subset (next_releaseOnly s' id) ?_)
    rw [shapes_releaseOnly]
    exact List.Subset.refl _
  | @reclaim s' _ ih => exact ih.trans (continues_of_subset (next_reclaim s') (shapes_reclaim s'))

/-- An object whose number is still in use is still there. -/
theorem Continues.mem_shapes (h : s.Continues s') (hs : s.Numbered) {o : TypeObject}
    (ho : o ∈ s.objects) (hid : o.id ∈ s'.ids) : o.shape ∈ s'.shapes := by
  obtain ⟨o', ho', hsame⟩ := mem_ids.1 hid
  have hlt : o.id < s.next := hs.id_lt_next o.id (mem_ids.2 ⟨o, ho, rfl⟩)
  have hold : o'.shape ∈ s.shapes := by
    refine h.old o'.shape (List.mem_map_of_mem ho') ?_
    rw [← hsame] at hlt
    exact hlt
  obtain ⟨p, hp, hshape⟩ := List.mem_map.1 hold
  have hpid : p.id = o.id := (congrArg Prod.fst hshape).trans hsame
  rw [← hs.eq_of_id_eq hp ho hpid, hshape]
  exact List.mem_map_of_mem ho'

/-- What was reached from handles that are out in a later store is reached from them there. -/
theorem Continues.reached (h : s.Continues s') (hs : s.Numbered) (hs' : s'.Sound held)
    (hheld : handles ⊆ held) {id : TypeId} (hreach : s.Reached handles id) :
    s'.Reached handles id := by
  induction hreach with
  | handle hmem => exact .handle hmem
  | @component o c ho _ hc ih =>
    have hkept := h.mem_shapes hs ho (hs'.mem_ids_of_reached hheld ih)
    obtain ⟨o', ho', hshape⟩ := List.mem_map.1 hkept
    obtain ⟨hid, hform⟩ := Prod.mk.inj hshape
    exact .component ho' (hid.symm ▸ ih) (hform.symm ▸ hc)

/-- An object reached from handles that are out in a later store has its entry there. -/
theorem Continues.entry (h : s.Continues s') (hs : s.Numbered) (hs' : s'.Sound held)
    (hheld : handles ⊆ held) {o : TypeObject} (ho : o ∈ s.objects)
    (hreach : s.Reached handles o.id) : ∃ o', s'.find? o.form = some o' ∧ o'.id = o.id := by
  have hid := hs'.mem_ids_of_reached hheld (h.reached hs hs' hheld hreach)
  obtain ⟨o', ho', hshape⟩ := List.mem_map.1 (h.mem_shapes hs ho hid)
  obtain ⟨hsame, hform⟩ := Prod.mk.inj hshape
  exact ⟨o', hform ▸ hs'.find?_eq ho', hsame⟩

/-- What a later store has under a new number is not pinned. -/
theorem Tended.isPinned_eq_false_of_le (ht : s.Tended) (hs : s.Numbered) (ht' : s'.Tended)
    {o : TypeObject} (ho : o ∈ s'.objects) (hle : s.next ≤ o.id) : o.isPinned = false := by
  rw [Bool.eq_false_iff]
  intro hpinned
  have hfounder := ht'.mem_initial ho hpinned
  rw [← ht.pinned] at hfounder
  obtain ⟨p, hp, hshape⟩ := List.mem_map.1 hfounder
  have hid : p.id = o.id := congrArg Prod.fst hshape
  have hlt := hs.id_lt_next p.id (mem_ids.2 ⟨p, (List.mem_filter.1 hp).1, rfl⟩)
  rw [hid] at hlt
  exact Nat.not_lt.2 hle hlt

/-! ## What is resident -/

/-- More handles reach more. -/
theorem Reached.of_handles {handles' : List TypeId} (hsub : handles ⊆ handles') {id : TypeId}
    (h : s.Reached handles id) : s.Reached handles' id := by
  induction h with
  | handle hmem => exact .handle (hsub hmem)
  | component ho _ hc ih => exact .component ho ih hc

/-- Where nothing waits to be reclaimed, what is there and not pinned is reached. -/
theorem Tended.reached_of_idle (ht : s.Tended)
    (hs : s.Sound (handles ++ TypeStore.initial.ownHoldings)) (hidle : s.queue = [])
    {o : TypeObject} (ho : o ∈ s.objects) (hfree : o.isPinned = false) :
    s.Reached handles o.id := by
  refine hs.reached_of_alive ht (fun p hp => ?_) ho hfree
  rw [Bool.eq_false_iff]
  intro hdead
  have hqueued := ht.queued p hp hdead
  rw [hidle] at hqueued
  cases hqueued

end TypeStore

/-! ## Reading types -/

namespace TypeReading

open TypeStore

variable {s : TypeStore}

theorem evolves_ofName (file : SourceFile) (types : TypeStore) (name : String) (span : Span) :
    types.Evolves (ofName file types name span).types := by
  unfold ofName named?
  rcases NamedType.ofName? name with e | _ | t
  · exact .refl
  · exact .refl
  · cases t with
    | primitive p => exact Evolves.refl.intern _
    | int sign bits => exact Evolves.refl.intern _

theorem evolves_wrap {r : TypeReading TypeId} (h : s.Evolves r.types) (form : TypeId → TypeForm) :
    s.Evolves (r.wrap form).types := by
  unfold wrap
  split
  · exact h
  · exact (h.intern _).release _

theorem evolves_append {before : TypeReading (List TypeId)} {next : TypeReading TypeId}
    (h : s.Evolves next.types) : s.Evolves (before.append next).types := by
  unfold append
  dsimp only
  split
  · exact h
  · exact h.foldl_release _
  · exact h.release _
  · exact h

theorem evolves_toFunction {r : TypeReading (List TypeId)} (h : s.Evolves r.types)
    (convention : CallingConvention) : s.Evolves (r.toFunction convention).types := by
  unfold toFunction
  split
  · exact h
  · exact (h.intern _).foldl_release _

mutual

theorem evolves_ofExpr (file : SourceFile) (types : TypeStore) :
    ∀ e : TypeExpr, types.Evolves (ofExpr file types e).types
  | .named name span => by
    rw [ofExpr]
    exact evolves_ofName file types name span
  | .pointer isConst isVolatile isMany pointee span => by
    rw [ofExpr]
    exact evolves_wrap (evolves_ofExpr file types pointee) _
  | .array length element span => by
    rw [ofExpr]
    exact evolves_wrap (evolves_ofExpr file types element) _
  | .function params result span => by
    rw [ofExpr]
    have hparams := evolves_ofExprs file ⟨some [], [], types⟩ params
    have hresult := evolves_ofExpr file (ofExprs file ⟨some [], [], types⟩ params).types result
    exact evolves_toFunction (evolves_append (hparams.trans hresult)) _

theorem evolves_ofExprs (file : SourceFile) (before : TypeReading (List TypeId)) :
    ∀ es : List TypeExpr, before.types.Evolves (ofExprs file before es).types
  | [] => by
    rw [ofExprs]
    exact .refl
  | e :: es => by
    rw [ofExprs]
    have hfirst := evolves_ofExpr file before.types e
    have happend : before.types.Evolves (before.append (ofExpr file before.types e)).types :=
      evolves_append hfirst
    exact happend.trans (evolves_ofExprs file _ es)

end

/-- Reading a signature is a number of requests. -/
theorem evolves_ofSignature (file : SourceFile) (types : TypeStore) (f : FunctionItem) :
    types.Evolves (ofSignature file types f).types := by
  have hparams := evolves_ofExprs file ⟨some [], [], types⟩ (f.params.map (·.type))
  have hresult := evolves_ofExpr file
    (ofExprs file ⟨some [], [], types⟩ (f.params.map (·.type))).types f.result
  exact evolves_append (hparams.trans hresult)

end TypeReading

end IncrementalBuild
