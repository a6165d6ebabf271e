import IncrementalBuild.Proofs.Types.Ledger

/-!
# What the objects of a sound store denote

Components are older than what is made of them, so in a sound store every object unfolds
to a type, one layer at a time, and two objects that unfold to one type are one object:
by induction on the numbers, equal types have equal components, hence equal forms, and
forms name objects. An object denotes the same type in every store that has all objects
it had.
-/

set_option autoImplicit false

namespace IncrementalBuild

/-! ## One layer of a type -/

/-- The trees of a list of components, if every one has a tree. -/
def TypeForm.trees? (f : TypeId → Option Ty) : List TypeId → Option (List Ty)
  | [] => some []
  | c :: cs => do return (← f c) :: (← trees? f cs)

namespace TypeForm

variable {f g : TypeId → Option Ty}

/-- The type a form stands for, given those of its components. -/
def toTy? (f : TypeId → Option Ty) : TypeForm → Option Ty
  | .primitive p => some (.primitive p)
  | .int sign bits => some (.int sign bits)
  | .array element length => (f element).map (.array · length)
  | .pointer pointee q => (f pointee).map (.pointer · q)
  | .function params result convention =>
    (trees? f params).bind fun ps => (f result).map (.function ps · convention)

theorem trees?_eq_mapM (cs : List TypeId) : trees? f cs = cs.mapM f := by
  induction cs with
  | nil => rfl
  | cons c cs ih => simp [trees?, ih]

theorem trees?_congr {cs : List TypeId} (h : ∀ c ∈ cs, f c = g c) :
    trees? f cs = trees? g cs := by
  induction cs with
  | nil => rfl
  | cons c cs ih =>
    have htail := ih fun c' hc' => h c' (List.mem_cons_of_mem _ hc')
    rw [trees?, trees?, h c (List.mem_cons_self ..), htail]

/-- The type depends on those of the components alone. -/
theorem toTy?_congr {form : TypeForm} (h : ∀ c ∈ form.components, f c = g c) :
    form.toTy? f = form.toTy? g := by
  cases form with
  | primitive p => rfl
  | int sign bits => rfl
  | array element length => simp only [toTy?, h element (by simp [components])]
  | pointer pointee q => simp only [toTy?, h pointee (by simp [components])]
  | function params result convention =>
    have hparams := trees?_congr fun c hc => h c (List.mem_append_left _ hc)
    simp only [toTy?, hparams, h result (by simp [components])]

theorem trees?_isSome {cs : List TypeId} (h : ∀ c ∈ cs, (f c).isSome) : (trees? f cs).isSome := by
  induction cs with
  | nil => rfl
  | cons c cs ih =>
    obtain ⟨t, ht⟩ := Option.isSome_iff_exists.1 (h c (List.mem_cons_self ..))
    obtain ⟨ts, hts⟩ := Option.isSome_iff_exists.1
      (ih fun c' hc' => h c' (List.mem_cons_of_mem _ hc'))
    simp [trees?, ht, hts]

/-- A form stands for a type if its components do. -/
theorem toTy?_isSome {form : TypeForm} (h : ∀ c ∈ form.components, (f c).isSome) :
    (form.toTy? f).isSome := by
  cases form with
  | primitive p => rfl
  | int sign bits => rfl
  | array element length => simpa [toTy?] using h element (by simp [components])
  | pointer pointee q => simpa [toTy?] using h pointee (by simp [components])
  | function params result convention =>
    obtain ⟨ts, hts⟩ := Option.isSome_iff_exists.1
      (trees?_isSome fun c hc => h c (List.mem_append_left _ hc))
    simpa [toTy?, hts] using h result (by simp [components])

theorem trees?_inj {cs ds : List TypeId} {ts : List Ty}
    (h : ∀ c ∈ cs, ∀ d, ∀ t, f c = some t → f d = some t → c = d)
    (hc : trees? f cs = some ts) (hd : trees? f ds = some ts) : cs = ds := by
  induction cs generalizing ds ts with
  | nil =>
    cases ds with
    | nil => rfl
    | cons d ds =>
      simp only [trees?, Option.some.injEq] at hc
      subst hc
      cases hfd : f d <;> cases hds : trees? f ds <;> simp [trees?, hfd, hds] at hd
  | cons c cs ih =>
    obtain ⟨t, ht, hc⟩ := Option.bind_eq_some_iff.1 hc
    obtain ⟨us, hus, hc⟩ := Option.bind_eq_some_iff.1 hc
    cases hc
    cases ds with
    | nil => simp [trees?] at hd
    | cons d ds =>
      obtain ⟨t', ht', hd⟩ := Option.bind_eq_some_iff.1 hd
      obtain ⟨us', hus', hd⟩ := Option.bind_eq_some_iff.1 hd
      cases hd
      rw [h c (List.mem_cons_self ..) d t ht ht',
        ih (fun c' hc' => h c' (List.mem_cons_of_mem _ hc')) hus hus']

/-- Forms that stand for one type are equal if that holds of their components. -/
theorem toTy?_inj {form form' : TypeForm} {t : Ty}
    (h : ∀ c ∈ form.components, ∀ d, ∀ u, f c = some u → f d = some u → c = d)
    (hform : form.toTy? f = some t) (hform' : form'.toTy? f = some t) : form = form' := by
  cases form with
  | primitive p =>
    obtain rfl := Option.some.inj hform
    cases form' with
    | primitive p' =>
      cases hform'
      rfl
    | _ => simp [toTy?, Option.map_eq_some_iff, Option.bind_eq_some_iff] at hform'
  | int sign bits =>
    obtain rfl := Option.some.inj hform
    cases form' with
    | int sign' bits' =>
      cases hform'
      rfl
    | _ => simp [toTy?, Option.map_eq_some_iff, Option.bind_eq_some_iff] at hform'
  | array element length =>
    obtain ⟨e, he, rfl⟩ := Option.map_eq_some_iff.1 hform
    cases form' with
    | array element' length' =>
      obtain ⟨e', he', heq⟩ := Option.map_eq_some_iff.1 hform'
      cases heq
      rw [h element (by simp [components]) element' e he he']
    | _ => simp [toTy?, Option.map_eq_some_iff, Option.bind_eq_some_iff] at hform'
  | pointer pointee q =>
    obtain ⟨e, he, rfl⟩ := Option.map_eq_some_iff.1 hform
    cases form' with
    | pointer pointee' q' =>
      obtain ⟨e', he', heq⟩ := Option.map_eq_some_iff.1 hform'
      cases heq
      rw [h pointee (by simp [components]) pointee' e he he']
    | _ => simp [toTy?, Option.map_eq_some_iff, Option.bind_eq_some_iff] at hform'
  | function params result convention =>
    obtain ⟨ps, hps, hform⟩ := Option.bind_eq_some_iff.1 hform
    obtain ⟨r, hr, rfl⟩ := Option.map_eq_some_iff.1 hform
    cases form' with
    | function params' result' convention' =>
      obtain ⟨ps', hps', hform'⟩ := Option.bind_eq_some_iff.1 hform'
      obtain ⟨r', hr', heq⟩ := Option.map_eq_some_iff.1 hform'
      cases heq
      rw [trees?_inj (fun c hc => h c (List.mem_append_left _ hc)) hps hps',
        h result (by simp [components]) result' r hr hr']
    | _ => simp [toTy?, Option.map_eq_some_iff] at hform'

end TypeForm

namespace TypeStore

variable {s s' : TypeStore} {held held' : List TypeId}

/-! ## Objects unfold layer by layer -/

theorem denoteWithin_succ (s : TypeStore) (fuel : Nat) (id : TypeId) :
    s.denoteWithin (fuel + 1) id =
      (s.get? id).bind fun o => o.form.toTy? (s.denoteWithin fuel) := by
  rw [denoteWithin]
  cases hget : s.get? id with
  | none => rfl
  | some o =>
    obtain ⟨_, form, _, _⟩ := o
    cases form with
    | primitive p => rfl
    | int sign bits => rfl
    | array element length => cases h : s.denoteWithin fuel element <;> simp [TypeForm.toTy?, h]
    | pointer pointee q => cases h : s.denoteWithin fuel pointee <;> simp [TypeForm.toTy?, h]
    | function params result convention =>
      cases h : params.mapM (s.denoteWithin fuel) <;>
        cases h' : s.denoteWithin fuel result <;>
          simp [TypeForm.toTy?, TypeForm.trees?_eq_mapM, h, h']

/-- More layers than the number says change nothing. -/
theorem Sound.denoteWithin_eq (h : s.Sound held) {id : TypeId} {m n : Nat} (hm : id < m)
    (hn : id < n) : s.denoteWithin m id = s.denoteWithin n id := by
  induction id using Nat.strongRecOn generalizing m n with
  | _ id ih =>
    obtain ⟨m, rfl⟩ := Nat.exists_eq_succ_of_ne_zero (Nat.ne_zero_of_lt hm)
    obtain ⟨n, rfl⟩ := Nat.exists_eq_succ_of_ne_zero (Nat.ne_zero_of_lt hn)
    rw [denoteWithin_succ, denoteWithin_succ]
    cases hget : s.get? id with
    | none => rfl
    | some o =>
      have ho : o ∈ s.objects := List.mem_of_find?_eq_some hget
      have hid : o.id = id := by simpa using List.find?_some hget
      refine TypeForm.toTy?_congr fun c hc => ?_
      have hlt : c < id := hid ▸ h.component_lt o ho c hc
      exact ih c hlt (Nat.lt_of_lt_of_le hlt (Nat.le_of_lt_succ hm))
        (Nat.lt_of_lt_of_le hlt (Nat.le_of_lt_succ hn))

/-- An object denotes what its form stands for. -/
theorem Sound.denote?_eq (h : s.Sound held) {o : TypeObject} (ho : o ∈ s.objects) :
    s.denote? o.id = o.form.toTy? s.denote? := by
  rw [denote?, denoteWithin_succ, h.get?_eq ho]
  refine TypeForm.toTy?_congr fun c hc => ?_
  exact h.denoteWithin_eq (h.component_lt o ho c hc) (Nat.lt_succ_self c)

/-- What a resident object's components are, is resident. -/
theorem Sound.component_mem_ids (h : s.Sound held) {o : TypeObject} (ho : o ∈ s.objects)
    {c : TypeId} (hc : c ∈ o.form.components) : c ∈ s.ids :=
  h.mentioned_resident c (mem_mentioned.2 ⟨o, ho, hc⟩)

/-- Every object denotes a type. -/
theorem Sound.denote?_isSome (h : s.Sound held) {id : TypeId} (hid : id ∈ s.ids) :
    (s.denote? id).isSome := by
  induction id using Nat.strongRecOn with
  | _ id ih =>
    obtain ⟨o, ho, rfl⟩ := mem_ids.1 hid
    rw [h.denote?_eq ho]
    exact TypeForm.toTy?_isSome fun c hc =>
      ih c (h.component_lt o ho c hc) (h.component_mem_ids ho hc)

theorem mem_ids_of_denote? {id : TypeId} {t : Ty} (h : s.denote? id = some t) : id ∈ s.ids := by
  rw [denote?, denoteWithin_succ] at h
  obtain ⟨o, hget, -⟩ := Option.bind_eq_some_iff.1 h
  have hid : o.id = id := by simpa using List.find?_some hget
  exact mem_ids.2 ⟨o, List.mem_of_find?_eq_some hget, hid⟩

/-- Objects that denote one type are one. -/
theorem Sound.eq_of_denote? (h : s.Sound held) {id id' : TypeId} {t : Ty}
    (hid : s.denote? id = some t) (hid' : s.denote? id' = some t) : id = id' := by
  induction id using Nat.strongRecOn generalizing id' t with
  | _ id ih =>
    obtain ⟨o, ho, rfl⟩ := mem_ids.1 (mem_ids_of_denote? hid)
    obtain ⟨o', ho', rfl⟩ := mem_ids.1 (mem_ids_of_denote? hid')
    rw [h.denote?_eq ho] at hid
    rw [h.denote?_eq ho'] at hid'
    have hform : o.form = o'.form := TypeForm.toTy?_inj
      (fun c hc d u hcu hdu => ih c (h.component_lt o ho c hc) hcu hdu) hid hid'
    rw [h.eq_of_form_eq ho ho' hform]

/-! ## Stores that have the objects of another -/

/-- An object of two sound stores, with all that is below it, denotes one type in both. -/
theorem Sound.denote?_mono (h : s.Sound held) (h' : s'.Sound held')
    (hsub : ∀ x ∈ s.shapes, x ∈ s'.shapes) {id : TypeId} (hid : id ∈ s.ids) :
    s'.denote? id = s.denote? id := by
  induction id using Nat.strongRecOn with
  | _ id ih =>
    obtain ⟨o, ho, rfl⟩ := mem_ids.1 hid
    obtain ⟨o', ho', hshape⟩ := List.mem_map.1 (hsub _ (List.mem_map_of_mem ho))
    obtain ⟨hoid, hform⟩ := Prod.mk.inj hshape
    rw [← hoid, h'.denote?_eq ho', hoid, h.denote?_eq ho, hform]
    exact TypeForm.toTy?_congr fun c hc =>
      ih c (h.component_lt o ho c hc) (h.component_mem_ids ho hc)

end TypeStore

end IncrementalBuild
