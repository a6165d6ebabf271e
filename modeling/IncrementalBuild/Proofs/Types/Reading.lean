import IncrementalBuild.Proofs.Types.Denotation
import IncrementalBuild.Proofs.Types.Meaning

/-!
# What reading a type finds

Reading a written type in a sound store finds what it means: an object that denotes it, held
once. Every other object stays as it was, and if there is a problem nothing is held.
-/

set_option autoImplicit false

namespace IncrementalBuild

/-! ## Stores that grow -/

namespace TypeStore

variable {s s' : TypeStore} {held held' : List TypeId}

theorem shapes_foldl_release {gone : List TypeId} (h : s.Sound (gone ++ held)) :
    (gone.foldl release s).shapes = s.shapes ∧ (gone.foldl release s).Sound held := by
  induction gone generalizing s with
  | nil => exact ⟨rfl, h⟩
  | cons id gone ih =>
    rw [List.cons_append] at h
    obtain ⟨hshapes, hsound⟩ := ih h.release
    exact ⟨hshapes.trans (h.shapes_release id), hsound⟩

/-- An object made or found denotes what its form stands for, and no other object changes. -/
theorem intern_denotes (h : s.Sound held) {form : TypeForm}
    (hcomponents : ∀ c ∈ form.components, c ∈ s.ids) :
    s.shapes ⊆ (s.intern form).2.shapes ∧
      (s.intern form).2.denote? (s.intern form).1 = form.toTy? s.denote? := by
  have hsound := h.intern hcomponents
  unfold intern at hsound ⊢
  cases hfind : s.find? form with
  | some o =>
    rw [hfind] at hsound
    dsimp only at hsound ⊢
    have ho : o ∈ s.objects := List.mem_of_find?_eq_some hfind
    have hform : o.form = form := by simpa using List.find?_some hfind
    have hshapes : s.shapes = (s.retain o.id).shapes := (shapes_retain s o.id).symm
    refine ⟨hshapes ▸ List.Subset.refl _, ?_⟩
    rw [h.denote?_mono hsound (fun x hx => hshapes ▸ hx) (mem_ids.2 ⟨o, ho, rfl⟩),
      h.denote?_eq ho, hform]
  | none =>
    rw [hfind] at hsound
    dsimp only at hsound ⊢
    have hshapes := shapes_create s form false
    have hsub : s.shapes ⊆ (s.create form false).2.shapes := by
      rw [hshapes]
      exact List.subset_append_left _ _
    refine ⟨hsub, ?_⟩
    obtain ⟨o, ho, hshape⟩ : ∃ o ∈ (s.create form false).2.objects, o.shape = (s.next, form) := by
      refine List.mem_map.1 ?_
      change (s.next, form) ∈ (s.create form false).2.shapes
      rw [hshapes]
      exact List.mem_append_right _ (List.mem_singleton_self _)
    obtain ⟨hid, hform⟩ := Prod.mk.inj hshape
    change (s.create form false).2.denote? s.next = _
    rw [← hid, hsound.denote?_eq ho, hform]
    exact TypeForm.toTy?_congr fun c hc =>
      h.denote?_mono hsound (fun x hx => hsub hx) (hcomponents c hc)

end TypeStore

/-! ## What a reading finds -/

namespace TypeReading

variable {file : SourceFile} {types : TypeStore} {held : List TypeId}

/-- A reading found a type if there is one to be found: it holds one object for it, and leaves
those of the store before as they were. -/
structure Finds (types : TypeStore) (held : List TypeId) (r : TypeReading TypeId)
    (meaning? : Option Ty) : Prop where
  sound : r.types.Sound (r.found.toList ++ held)
  grows : types.shapes ⊆ r.types.shapes
  denotes : meaning? = r.found.bind r.types.denote?

/-- A reading found several types, as `Finds` says of one. -/
structure FindsAll (types : TypeStore) (held : List TypeId) (r : TypeReading (List TypeId))
    (meanings? : Option (List Ty)) : Prop where
  sound : r.types.Sound (r.found.getD [] ++ held)
  grows : types.shapes ⊆ r.types.shapes
  denotes : meanings? = r.found.bind (TypeForm.trees? r.types.denote?)

theorem finds_ofName (h : types.Sound held) (name : String) (span : Span) :
    Finds types held (ofName file types name span) (TypeExpr.named name span).meaning? := by
  unfold ofName TypeStore.named?
  rw [TypeExpr.meaning?]
  have hform : ∀ form : TypeForm, form.components = [] → ∀ t, form.toTy? types.denote? = some t →
      Finds types held ⟨some (types.intern form).1, [], (types.intern form).2⟩ (some t) := by
    intro form hnone t ht
    have hcomponents : ∀ c ∈ form.components, c ∈ types.ids := by simp [hnone]
    obtain ⟨hgrows, hdenotes⟩ := TypeStore.intern_denotes h hcomponents
    exact ⟨h.intern hcomponents, hgrows, (hdenotes.trans ht).symm⟩
  rcases NamedType.ofName? name with e | _ | t
  · exact ⟨h, List.Subset.refl _, rfl⟩
  · exact ⟨h, List.Subset.refl _, rfl⟩
  · cases t with
    | primitive p => exact hform (.primitive p) rfl _ rfl
    | int sign bits => exact hform (.int sign bits) rfl _ rfl

/-- A type made of a component that was found is found. -/
theorem Finds.wrap {r : TypeReading TypeId} {meaning? : Option Ty} (h : Finds types held r meaning?)
    {form : TypeId → TypeForm} {make : Ty → Ty} (hcomponents : ∀ c, (form c).components = [c])
    (hmake : ∀ (f : TypeId → Option Ty) c, (form c).toTy? f = (f c).map make) :
    Finds types held (r.wrap form) (meaning?.map make) := by
  obtain ⟨found, problems, store⟩ := r
  obtain ⟨hsound, hgrows, hdenotes⟩ := h
  unfold TypeReading.wrap
  cases found with
  | none =>
    subst hdenotes
    exact ⟨hsound, hgrows, rfl⟩
  | some c =>
    dsimp only at hsound hgrows hdenotes ⊢
    have hmem : ∀ c' ∈ (form c).components, c' ∈ store.ids := by
      intro c' hc'
      rw [hcomponents, List.mem_singleton] at hc'
      rw [hc']
      exact hsound.held_resident c (by simp)
    obtain ⟨hmore, hnew⟩ := TypeStore.intern_denotes hsound hmem
    have hinterned := (hsound.intern hmem).perm (List.Perm.swap ..)
    have hshapes := hinterned.shapes_release c
    have hreleased := hinterned.release
    refine ⟨hreleased, ?_, ?_⟩
    · dsimp only
      rw [hshapes]
      exact List.Subset.trans hgrows hmore
    · have hid : (store.intern (form c)).1 ∈ (store.intern (form c)).2.ids :=
        hinterned.held_resident _ (by simp)
      rw [hdenotes]
      dsimp only [Option.bind_some]
      rw [← hmake, ← hnew]
      exact (hinterned.denote?_mono hreleased (fun x hx => hshapes ▸ hx) hid).symm

theorem trees?_append_singleton {f : TypeId → Option Ty} (cs : List TypeId) (c : TypeId) :
    TypeForm.trees? f (cs ++ [c]) =
      (TypeForm.trees? f cs).bind fun ts => (f c).map fun t => ts ++ [t] := by
  induction cs with
  | nil => cases h : f c <;> simp [TypeForm.trees?, h]
  | cons d cs ih =>
    rw [List.cons_append, TypeForm.trees?, TypeForm.trees?, ih]
    cases f d with
    | none => rfl
    | some t => cases TypeForm.trees? f cs <;> cases f c <;> rfl

theorem trees?_grown {s s' : TypeStore} {held' ids : List TypeId} (h : s.Sound held)
    (h' : s'.Sound held') (hsub : s.shapes ⊆ s'.shapes) (hids : ∀ id ∈ ids, id ∈ s.ids) :
    TypeForm.trees? s'.denote? ids = TypeForm.trees? s.denote? ids :=
  TypeForm.trees?_congr fun id hid => h.denote?_mono h' (fun _ hx => hsub hx) (hids id hid)

/-- One more type after those that were found. -/
theorem FindsAll.append {before : TypeReading (List TypeId)} {next : TypeReading TypeId}
    {meanings? : Option (List Ty)} {meaning? : Option Ty}
    (h : FindsAll types held before meanings?)
    (hnext : Finds before.types (before.found.getD [] ++ held) next meaning?) :
    FindsAll types held (before.append next)
      (meanings?.bind fun ts => meaning?.map fun t => ts ++ [t]) := by
  obtain ⟨found, problems, store⟩ := before
  obtain ⟨found', problems', store'⟩ := next
  obtain ⟨hsound, hgrows, rfl⟩ := h
  obtain ⟨hsound', hgrows', rfl⟩ := hnext
  have hall := List.Subset.trans hgrows hgrows'
  unfold TypeReading.append
  cases found with
  | none =>
    cases found' with
    | none => exact ⟨hsound', hall, rfl⟩
    | some id =>
      refine ⟨hsound'.release, ?_, rfl⟩
      dsimp only
      rw [hsound'.shapes_release]
      exact hall
  | some ids =>
    cases found' with
    | none =>
      have hboth : store'.Sound (ids ++ held) := hsound'
      obtain ⟨hshapes, hreleased⟩ := TypeStore.shapes_foldl_release hboth
      refine ⟨hreleased, ?_, ?_⟩
      · dsimp only
        rw [hshapes]
        exact hall
      · cases TypeForm.trees? store.denote? ids <;> simp [*]
    | some id =>
      have hperm : ([id] ++ (ids ++ held)).Perm ((ids ++ [id]) ++ held) := by
        rw [← List.append_assoc]
        exact List.perm_append_comm.append_right _
      refine ⟨hsound'.perm hperm, hall, ?_⟩
      have hids : ∀ c ∈ ids, c ∈ store.ids := fun c hc =>
        hsound.held_resident c (List.mem_append_left _ hc)
      dsimp only [Option.bind_some]
      rw [trees?_append_singleton, trees?_grown hsound hsound' hgrows' hids]

theorem append_ne_nil {before : TypeReading (List TypeId)} {next : TypeReading TypeId}
    {ids : List TypeId} (h : (before.append next).found = some ids) : ids ≠ [] := by
  unfold TypeReading.append at h
  dsimp only at h
  split at h
  · rw [← Option.some.inj h]
    simp
  · cases h
  · cases h
  · cases h

/-- What comes last in a list, and what comes before it, are known from the list. -/
theorem pair_congr {α : Type} {ps? qs? : Option (List Ty)} {r? s? : Option Ty}
    (h : (ps?.bind fun ts => r?.map fun t => ts ++ [t]) =
      qs?.bind fun ts => s?.map fun t => ts ++ [t]) (make : List Ty → Ty → α) :
    (ps?.bind fun ts => r?.map fun t => make ts t) =
      qs?.bind fun ts => s?.map fun t => make ts t := by
  cases ps? with
  | none => cases qs? <;> cases s? <;> simp_all
  | some ps =>
    cases r? with
    | none => cases qs? <;> cases s? <;> simp_all
    | some t =>
      cases qs? with
      | none => cases h
      | some qs =>
        cases s? with
        | none => cases h
        | some u =>
          obtain ⟨rfl, hu⟩ := List.append_inj' (Option.some.inj h) rfl
          cases hu
          rfl

/-- Types that were found make a function type. -/
theorem FindsAll.toFunction {r : TypeReading (List TypeId)} {ps? : Option (List Ty)}
    {result? : Option Ty}
    (h : FindsAll types held r (ps?.bind fun ts => result?.map fun t => ts ++ [t]))
    (hlast : ∀ ids, r.found = some ids → ids ≠ []) (how : CallingConvention) :
    Finds types held (r.toFunction how)
      (ps?.bind fun ts => result?.map fun t => .function ts t how) := by
  obtain ⟨found, problems, store⟩ := r
  obtain ⟨hsound, hgrows, hdenotes⟩ := h
  unfold TypeReading.toFunction
  cases found with
  | none =>
    refine ⟨hsound, hgrows, ?_⟩
    cases ps? with
    | none => rfl
    | some ps =>
      cases result? with
      | none => rfl
      | some t => cases hdenotes
  | some ids =>
    have hall : store.Sound (ids ++ held) := hsound
    have hids : ids.dropLast ++ [ids.getLast?.getD 0] = ids := by
      rw [List.getLast?_eq_some_getLast (hlast ids rfl), Option.getD_some,
        List.dropLast_append_getLast]
    have hmem : ∀ c ∈ (TypeForm.function ids.dropLast (ids.getLast?.getD 0) how).components,
        c ∈ store.ids := by
      intro c hc
      rw [TypeForm.components, hids] at hc
      exact hall.held_resident c (List.mem_append_left _ hc)
    obtain ⟨hmore, hnew⟩ := TypeStore.intern_denotes hall hmem
    have hperm (id : TypeId) : (id :: (ids ++ held)).Perm (ids ++ id :: held) :=
      List.perm_middle.symm
    have hinterned := (hall.intern hmem).perm (hperm _)
    obtain ⟨hshapes, hreleased⟩ := TypeStore.shapes_foldl_release hinterned
    refine ⟨hreleased, ?_, ?_⟩
    · dsimp only
      rw [hshapes]
      exact List.Subset.trans hgrows hmore
    · have hid := hinterned.held_resident _ (List.mem_append_right _ (List.mem_cons_self ..))
      dsimp only [Option.bind_some] at hdenotes ⊢
      rw [hinterned.denote?_mono hreleased (fun x hx => hshapes ▸ hx) hid, hnew]
      rw [← hids, trees?_append_singleton] at hdenotes
      exact pair_congr hdenotes fun ts t => Ty.function ts t how

mutual

/-- Reading a type finds what it means. -/
theorem finds_ofExpr {types : TypeStore} {held : List TypeId} (h : types.Sound held) :
    ∀ e : TypeExpr, Finds types held (ofExpr file types e) e.meaning?
  | .named name span => by
    rw [ofExpr]
    exact finds_ofName h name span
  | .pointer isConst isVolatile isMany pointee span => by
    rw [ofExpr, TypeExpr.meaning?]
    exact (finds_ofExpr h pointee).wrap (fun _ => rfl) fun _ _ => rfl
  | .array length element span => by
    rw [ofExpr, TypeExpr.meaning?]
    exact (finds_ofExpr h element).wrap (fun _ => rfl) fun _ _ => rfl
  | .function params result span => by
    have hnone : FindsAll types held ⟨some [], [], types⟩ (some []) :=
      ⟨h, List.Subset.refl _, rfl⟩
    have hparams := findsAll_ofExprs hnone params
    have hresult := finds_ofExpr hparams.sound result
    rw [ofExpr, TypeExpr.meaning?]
    refine FindsAll.toFunction ?_ ?_ .unspecified
    · have hall := hparams.append hresult
      simpa using hall
    · exact fun ids => append_ne_nil

/-- Reading types finds what they mean. -/
theorem findsAll_ofExprs {types : TypeStore} {held : List TypeId}
    {before : TypeReading (List TypeId)} {meanings? : Option (List Ty)}
    (h : FindsAll types held before meanings?) :
    ∀ es : List TypeExpr, FindsAll types held (ofExprs file before es)
      (meanings?.bind fun ts => (TypeExpr.meanings? es).map (ts ++ ·))
  | [] => by
    rw [ofExprs, TypeExpr.meanings?]
    simpa using h
  | e :: es => by
    rw [ofExprs, TypeExpr.meanings?]
    have hmore := findsAll_ofExprs (h.append (finds_ofExpr h.sound e)) es
    have hassoc : (meanings?.bind fun ts => (e.meaning?.bind fun t =>
          (TypeExpr.meanings? es).map (t :: ·)).map (ts ++ ·)) =
        (meanings?.bind fun ts => e.meaning?.map fun t => ts ++ [t]).bind fun ts =>
          (TypeExpr.meanings? es).map (ts ++ ·) := by
      cases meanings? <;> cases e.meaning? <;> cases TypeExpr.meanings? es <;> simp
    rw [hassoc]
    exact hmore

end

/-- Reading a signature finds what it means: the types of the parameters, and that of the
result after them. -/
theorem findsAll_ofSignature (h : types.Sound held) (f : FunctionItem) :
    FindsAll types held (ofSignature file types f)
      (f.meaning?.map fun signature => signature.1 ++ [signature.2]) := by
  have hnone : FindsAll types held ⟨some [], [], types⟩ (some []) := ⟨h, List.Subset.refl _, rfl⟩
  have hparams := @findsAll_ofExprs file _ _ _ _ hnone (f.params.map (·.type))
  have hall := hparams.append (@finds_ofExpr file _ _ hparams.sound f.result)
  have hmeaning : (f.meaning?.map fun signature => signature.1 ++ [signature.2]) =
      ((some []).bind fun ts => (TypeExpr.meanings? (f.params.map (·.type))).map (ts ++ ·)).bind
        fun ts => f.result.meaning?.map fun t => ts ++ [t] := by
    unfold FunctionItem.meaning?
    cases TypeExpr.meanings? (f.params.map (·.type)) <;> cases f.result.meaning? <;> simp
  rw [hmeaning]
  exact hall

/-- A signature is read, or a problem of it is found and nothing is held for it. -/
theorem ofSignature_cases (h : types.Sound held) (f : FunctionItem) :
    (f.meaning? = none ∧ (ofSignature file types f).found = none ∧
      (ofSignature file types f).types.Sound held) ∨
    ∃ ts t params result, f.meaning? = some (ts, t) ∧
      (ofSignature file types f).found = some (params ++ [result]) ∧
      TypeForm.trees? (ofSignature file types f).types.denote? params = some ts ∧
      (ofSignature file types f).types.denote? result = some t ∧
      (ofSignature file types f).types.Sound (params ++ [result] ++ held) := by
  obtain ⟨hsound, -, hdenotes⟩ := @findsAll_ofSignature file _ _ h f
  cases hfound : (ofSignature file types f).found with
  | none =>
    rw [hfound] at hsound hdenotes
    left
    refine ⟨?_, rfl, hsound⟩
    simpa using hdenotes
  | some ids =>
    have hids : ids.dropLast ++ [ids.getLast (append_ne_nil hfound)] = ids :=
      List.dropLast_append_getLast _
    rw [hfound, Option.getD_some] at hsound
    rw [hfound, Option.bind_some, ← hids, trees?_append_singleton] at hdenotes
    have hdenoted : ∀ id ∈ ids, ((ofSignature file types f).types.denote? id).isSome := by
      intro id hid
      apply hsound.denote?_isSome
      exact hsound.held_resident id (List.mem_append_left _ hid)
    obtain ⟨ts, hts⟩ := Option.isSome_iff_exists.1 (TypeForm.trees?_isSome fun c hc =>
      hdenoted c (List.dropLast_subset _ hc))
    obtain ⟨t, ht⟩ :=
      Option.isSome_iff_exists.1 (hdenoted _ (List.getLast_mem (append_ne_nil hfound)))
    rw [hts, ht] at hdenotes
    obtain ⟨signature, hsignature, hlast⟩ := Option.map_eq_some_iff.1 hdenotes
    obtain ⟨hinit, hresult⟩ := List.append_inj' hlast rfl
    cases hresult
    refine .inr ⟨signature.1, signature.2, ids.dropLast, _, hsignature, ?_, ?_, ht, ?_⟩
    · rw [hids]
    · rw [hts, hinit]
    · rwa [hids]

end TypeReading

end IncrementalBuild
