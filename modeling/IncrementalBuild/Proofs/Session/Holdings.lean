import IncrementalBuild.Proofs.Types.Reading
import IncrementalBuild.Session.Tasks
import Mathlib.Data.List.Perm.Basic

/-!
# The types a session holds

A session holds the types of the resolutions it knows and those of the functions it links,
besides what every store holds itself. Its books are balanced when the store counts just
these holders; what a task has taken and not yet given back is counted as extra. Every change
of a session is one entry in these books.
-/

set_option autoImplicit false

namespace IncrementalBuild

namespace TypeStore

variable {s : TypeStore}

/-- What is still there after reclaiming denotes what it did. -/
theorem Sound.denote?_reclaim {held : List TypeId} (h : s.Sound held) {id : TypeId}
    (hid : id ∈ held) : s.reclaim.denote? id = s.denote? id := by
  have hthere := h.reclaim.held_resident id hid
  rw [h.reclaim.denote?_mono h (fun _ hx => shapes_reclaim s hx) hthere]

end TypeStore

/-- The type objects the value of a memo holds. -/
def Memo.held (m : Memo Resolution) : List TypeId := (m.peek.map Resolution.held).getD []

namespace Session

variable {s s' : Session} {extra : List TypeId} {id : DeclId}

/-- The type objects a session holds, as often as it does. -/
def held (s : Session) : List TypeId :=
  TypeStore.initial.ownHoldings ++ s.resolutions.flatMap (·.2.held) ++
    s.linkSet.functions.map (·.type)

/-- The books of a session are balanced, up to handles that are still out. -/
structure Balanced (s : Session) (extra : List TypeId) : Prop where
  types : s.types.Sound (extra ++ s.held)
  keys : (s.resolutions.map (·.1)).Nodup

theorem Balanced.mem_ids (h : s.Balanced extra) {i : TypeId} (hi : i ∈ extra) : i ∈ s.types.ids :=
  h.types.held_resident i (List.mem_append_left _ hi)

theorem Balanced.perm (h : s.Balanced extra) {extra' : List TypeId} (hp : extra.Perm extra') :
    s.Balanced extra' :=
  ⟨h.types.perm (hp.append_right _), h.keys⟩

/-! ## Resolutions -/

theorem resolution_eq_of_mem (hkeys : (s.resolutions.map (·.1)).Nodup) {m : Memo Resolution}
    (hm : (id, m) ∈ s.resolutions) : s.resolution id = m := by
  have hlookup : ∀ (l : List (DeclId × Memo Resolution)), (l.map (·.1)).Nodup → (id, m) ∈ l →
      List.lookup id l = some m := by
    intro l hnodup hmem
    induction l with
    | nil => cases hmem
    | cons x l ih =>
      rw [List.map_cons, List.nodup_cons] at hnodup
      rcases List.mem_cons.1 hmem with rfl | htail
      · exact List.lookup_cons_self
      · have hne : id ≠ x.1 := by
          intro heq
          exact hnodup.1 (heq ▸ List.mem_map_of_mem (f := (·.1)) htail)
        rw [List.lookup_cons, beq_eq_false_iff_ne.2 hne]
        exact ih hnodup.2 htail
  unfold resolution
  rw [hlookup _ hkeys hm, Option.getD_some]

theorem lookup_filter_key (p : DeclId → Bool) (id : DeclId) (l : List (DeclId × Memo Resolution)) :
    List.lookup id (l.filter fun x => p x.1) = if p id then List.lookup id l else none := by
  induction l with
  | nil => simp
  | cons x l ih =>
    by_cases hkey : id = x.1
    · by_cases hx : p x.1 = true
      · rw [List.filter_cons, if_pos hx, List.lookup_cons, List.lookup_cons, hkey, if_pos hx]
        simp
      · rw [List.filter_cons, if_neg hx, ih, hkey, if_neg hx, if_neg hx]
    · have hother (l : List (DeclId × Memo Resolution)) :
          List.lookup id (x :: l) = List.lookup id l := by
        rw [List.lookup_cons, beq_eq_false_iff_ne.2 hkey]
      rw [hother, ← ih, List.filter_cons]
      split
      · exact hother _
      · rfl

theorem resolution_setResolution (s : Session) (id id' : DeclId) (m : Memo Resolution) :
    (s.setResolution id m).resolution id' = if id' = id then m else s.resolution id' := by
  unfold resolution setResolution
  dsimp only
  rw [List.lookup_append, lookup_filter_key (· != id)]
  by_cases hid : id' = id
  · rw [if_neg (by simp [hid]), if_pos hid, hid, Option.none_or, List.lookup_cons_self,
      Option.getD_some]
  · have hnone : List.lookup id' [(id, m)] = none := by
      rw [List.lookup_cons, beq_eq_false_iff_ne.2 hid]
      rfl
    rw [if_pos (by simp [hid]), if_neg hid, hnone, Option.or_none]

theorem keys_setResolution (hkeys : (s.resolutions.map (·.1)).Nodup) (m : Memo Resolution) :
    ((s.setResolution id m).resolutions.map (·.1)).Nodup := by
  unfold setResolution
  dsimp only
  rw [List.map_append, List.map_singleton]
  refine (hkeys.sublist (List.filter_sublist.map _)).append (List.nodup_singleton _) ?_
  rw [List.disjoint_singleton]
  simp

theorem flatMap_filter_of_nil {α β : Type} {p : α → Bool} {f : α → List β} {l : List α}
    (h : ∀ x ∈ l, p x = false → f x = []) : (l.filter p).flatMap f = l.flatMap f := by
  induction l with
  | nil => rfl
  | cons x l ih =>
    have htail := ih fun y hy => h y (List.mem_cons_of_mem _ hy)
    cases hx : p x with
    | true => rw [List.filter_cons_of_pos hx, List.flatMap_cons, List.flatMap_cons, htail]
    | false =>
      rw [List.filter_cons_of_neg (by simp [hx]), List.flatMap_cons, htail,
        h x (List.mem_cons_self ..) hx, List.nil_append]

/-- Where no value was, a new one adds what it holds. -/
theorem held_setResolution (hkeys : (s.resolutions.map (·.1)).Nodup)
    (hnone : (s.resolution id).held = []) (m : Memo Resolution) :
    (s.setResolution id m).held.Perm (m.held ++ s.held) := by
  have hrest : (s.resolutions.filter (·.1 != id)).flatMap (·.2.held) =
      s.resolutions.flatMap (·.2.held) := by
    refine flatMap_filter_of_nil fun x hx hgone => ?_
    have hid : x.1 = id := by simpa using hgone
    have hx' : (id, x.2) ∈ s.resolutions := by
      rw [← hid]
      exact hx
    rw [← resolution_eq_of_mem hkeys hx', hnone]
  unfold held setResolution
  dsimp only
  rw [List.flatMap_append, hrest, List.flatMap_singleton, List.perm_iff_count]
  intro i
  simp only [List.count_append]
  omega

/-! ## Entries in the books -/

theorem Balanced.setResolution {m : Memo Resolution} (h : s.Balanced (m.held ++ extra))
    (hnone : (s.resolution id).held = []) : (s.setResolution id m).Balanced extra := by
  refine ⟨h.types.perm ?_, keys_setResolution h.keys m⟩
  have hheld := held_setResolution h.keys hnone m
  refine List.Perm.trans ?_ (hheld.symm.append_left extra)
  rw [List.append_assoc]
  exact List.perm_append_comm_assoc ..

theorem Balanced.releaseTypes {ids : List TypeId} (h : s.Balanced (ids ++ extra)) :
    (Workshop.releaseTypes s ids).Balanced extra ∧
      (Workshop.releaseTypes s ids).types.shapes = s.types.shapes := by
  have htypes : s.types.Sound (ids ++ (extra ++ s.held)) := by
    rw [← List.append_assoc]
    exact h.types
  obtain ⟨hshapes, hsound⟩ := TypeStore.shapes_foldl_release htypes
  exact ⟨⟨hsound, h.keys⟩, hshapes⟩

theorem Balanced.retain (h : s.Balanced extra) {i : TypeId} (hi : i ∈ s.types.ids) :
    { s with types := s.types.retain i }.Balanced (i :: extra) :=
  ⟨h.types.retain hi, h.keys⟩

theorem Balanced.intern (h : s.Balanced extra) {form : TypeForm}
    (hcomponents : ∀ c ∈ form.components, c ∈ s.types.ids) :
    { s with types := (s.types.intern form).2 }.Balanced ((s.types.intern form).1 :: extra) :=
  ⟨h.types.intern hcomponents, h.keys⟩

/-- The books only know the types, the resolutions and the link set. -/
theorem Balanced.congr (h : s.Balanced extra) (htypes : s'.types = s.types)
    (hresolutions : s'.resolutions = s.resolutions) (hlinkSet : s'.linkSet = s.linkSet) :
    s'.Balanced extra := by
  have hheld : s'.held = s.held := by
    unfold held
    rw [hresolutions, hlinkSet]
  refine ⟨?_, ?_⟩
  · rw [htypes, hheld]
    exact h.types
  · rw [hresolutions]
    exact h.keys

theorem resolution_congr (h : s'.resolutions = s.resolutions) (id : DeclId) :
    s'.resolution id = s.resolution id := by
  unfold resolution
  rw [h]

theorem mem_held_of_resolution {id : DeclId} {i : TypeId} (h : i ∈ (s.resolution id).held) :
    i ∈ s.held := by
  unfold resolution at h
  cases hlookup : List.lookup id s.resolutions with
  | none =>
    rw [hlookup] at h
    cases h
  | some m =>
    rw [hlookup] at h
    have hmem : (id, m) ∈ s.resolutions := by
      obtain ⟨before, after, heq, -⟩ := List.lookup_eq_some_iff.1 hlookup
      simp [heq]
    unfold held
    simp only [List.mem_append, List.mem_flatMap]
    exact .inl (.inr ⟨_, hmem, h⟩)

/-! ## Forgetting -/

theorem refersTo_iff : s.refersTo id = true ↔
    (∃ d ∈ s.table.decls, d.id = id) ∨ ∃ e ∈ s.exports.entries, e.decl.id = id := by
  unfold Session.refersTo
  simp

theorem resolution_forget (s : Session) (id : DeclId) :
    s.forget.resolution id = if s.refersTo id then s.resolution id else .empty := by
  have hlookup := lookup_filter_key s.refersTo id s.resolutions
  unfold resolution
  change (List.lookup id (s.resolutions.filter fun x => s.refersTo x.1)).getD _ = _
  rw [hlookup]
  split <;> rfl

/-- What a live declaration was resolved to is not forgotten. -/
theorem resolution_forget_of_live {d : Decl} (hd : d ∈ s.table.decls) :
    s.forget.resolution d.id = s.resolution d.id := by
  rw [resolution_forget, if_pos (refersTo_iff.2 (.inl ⟨d, hd, rfl⟩))]

/-- Forgetting lets go of the types of what is forgotten, and of nothing else. -/
theorem Balanced.forget (h : s.Balanced extra) :
    s.forget.Balanced extra ∧ s.forget.types.shapes = s.types.shapes := by
  let gone := (s.resolutions.filter fun x => !s.refersTo x.1).flatMap (·.2.held)
  have hperm : (gone ++ s.forget.held).Perm s.held := by
    have hsplit : ((s.resolutions.filter fun x => s.refersTo x.1) ++
        s.resolutions.filter fun x => !s.refersTo x.1).Perm s.resolutions :=
      List.filter_append_perm ..
    have hflat := hsplit.flatMap_right (·.2.held)
    rw [List.flatMap_append] at hflat
    unfold held Session.forget
    dsimp only
    rw [List.perm_iff_count] at hflat ⊢
    intro i
    have hcount := hflat i
    simp only [gone, List.count_append] at hcount ⊢
    omega
  have htypes : s.types.Sound (gone ++ (extra ++ s.forget.held)) := by
    refine h.types.perm ?_
    rw [← List.append_assoc]
    refine List.Perm.trans (hperm.symm.append_left extra) ?_
    rw [← List.append_assoc]
    exact List.perm_append_comm.append_right _
  obtain ⟨hshapes, hsound⟩ := TypeStore.shapes_foldl_release htypes
  refine ⟨⟨hsound, ?_⟩, hshapes⟩
  exact h.keys.sublist (List.filter_sublist.map _)

end Session

end IncrementalBuild
