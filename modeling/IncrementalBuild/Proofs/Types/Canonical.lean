import IncrementalBuild.Proofs.Types.Denotation

/-!
# Canonical types

A client of a type store asks for types, copies its handles, lets go of them and has the
store reclaim what nobody holds, in any order. Whatever it did, two of its handles are one
exactly when the types they denote are one tree.
-/

set_option autoImplicit false

namespace IncrementalBuild

/-- What a name denotes is interned, and has no components. -/
theorem TypeStore.exists_intern_of_named? {s : TypeStore} {name : String}
    {answer : TypeId × TypeStore} (h : s.named? name = .ok (some answer)) :
    ∃ form : TypeForm, form.components = [] ∧ s.intern form = answer := by
  unfold named? at h
  cases hname : NamedType.ofName? name with
  | error e => simp [hname, Except.map] at h
  | ok type =>
    cases type with
    | none => simp [hname, Except.map] at h
    | some type =>
      cases type with
      | primitive p =>
        refine ⟨.primitive p, rfl, ?_⟩
        simpa [hname, Except.map] using h
      | int sign bits =>
        refine ⟨.int sign bits, rfl, ?_⟩
        simpa [hname, Except.map] using h

/-- What a client can ask of a type store. -/
inductive TypeRequest where
  | int (sign : Signedness) (bits : Nat)
  | array (element : TypeId) (length : Nat)
  | pointer (pointee : TypeId) (qualifiers : Qualifiers)
  | function (params : List TypeId) (result : TypeId) (convention : CallingConvention)
  | primitive (p : Primitive)
  | named (name : String)
  | clone (handle : TypeId)
  | drop (handle : TypeId)
  | reclaim

/-- A type store at work for a client, with the handles the client has, each as often as it
was given and not let go of. -/
structure TypeClient where
  store : TypeStore := .initial
  handles : List TypeId := []

namespace TypeClient

/-- The client gets one more handle. -/
def take (c : TypeClient) (answer : TypeId × TypeStore) : TypeClient where
  store := answer.2
  handles := answer.1 :: c.handles

/-- Serves a request. One that names a handle the client does not have cannot be made and
changes nothing. -/
def serve (c : TypeClient) : TypeRequest → TypeClient
  | .int sign bits => c.take (c.store.intern (.int sign bits))
  | .array element length =>
    if element ∈ c.handles then c.take (c.store.intern (.array element length)) else c
  | .pointer pointee q =>
    if pointee ∈ c.handles then c.take (c.store.intern (.pointer pointee q)) else c
  | .function params result convention =>
    if (∀ p ∈ params, p ∈ c.handles) ∧ result ∈ c.handles then
      c.take (c.store.intern (.function params result convention))
    else c
  | .primitive p => c.take (c.store.primitive p)
  | .named name =>
    match c.store.named? name with
    | .ok (some answer) => c.take answer
    | _ => c
  | .clone handle => if handle ∈ c.handles then c.take (handle, c.store.retain handle) else c
  | .drop handle =>
    if handle ∈ c.handles then
      { store := c.store.release handle, handles := c.handles.erase handle }
    else c
  | .reclaim => { c with store := c.store.reclaim }

/-- A new store after a run of requests. -/
def run (requests : List TypeRequest) : TypeClient := requests.foldl serve {}

/-- The store is sound for the client's handles and its own holdings. -/
def Sound (c : TypeClient) : Prop := c.store.Sound (c.handles ++ TypeStore.initial.ownHoldings)

variable {c : TypeClient}

theorem Sound.mem_ids (h : c.Sound) {id : TypeId} (hid : id ∈ c.handles) : id ∈ c.store.ids :=
  h.held_resident id (List.mem_append_left _ hid)

theorem Sound.take_intern (h : c.Sound) {form : TypeForm}
    (hcomponents : ∀ k ∈ form.components, k ∈ c.handles) :
    (c.take (c.store.intern form)).Sound :=
  TypeStore.Sound.intern h fun k hk => h.mem_ids (hcomponents k hk)

/-- What serving a request can do: nothing, to intern a form of handles, to copy a handle, to
let go of one, or to reclaim. -/
theorem serve_cases (c : TypeClient) (r : TypeRequest) :
    c.serve r = c ∨
    (∃ form : TypeForm, (∀ k ∈ form.components, k ∈ c.handles) ∧
      c.serve r = c.take (c.store.intern form)) ∨
    (∃ handle ∈ c.handles, c.serve r = c.take (handle, c.store.retain handle)) ∨
    (∃ handle ∈ c.handles, c.serve r =
      { store := c.store.release handle, handles := c.handles.erase handle }) ∨
    c.serve r = { c with store := c.store.reclaim } := by
  cases r with
  | int sign bits => exact .inr (.inl ⟨_, by simp [TypeForm.components], rfl⟩)
  | array element length =>
    simp only [serve]
    split
    · rename_i hmem
      exact .inr (.inl ⟨_, by simpa [TypeForm.components] using hmem, rfl⟩)
    · exact .inl rfl
  | pointer pointee q =>
    simp only [serve]
    split
    · rename_i hmem
      exact .inr (.inl ⟨_, by simpa [TypeForm.components] using hmem, rfl⟩)
    · exact .inl rfl
  | function params result convention =>
    simp only [serve]
    split
    · rename_i hmem
      refine .inr (.inl ⟨_, fun k hk => ?_, rfl⟩)
      rcases List.mem_append.1 hk with hk | hk
      · exact hmem.1 k hk
      · exact List.mem_singleton.1 hk ▸ hmem.2
    · exact .inl rfl
  | primitive p => exact .inr (.inl ⟨.primitive p, by simp [TypeForm.components], rfl⟩)
  | named name =>
    simp only [serve]
    split
    · rename_i answer hanswer
      obtain ⟨form, hform, rfl⟩ := TypeStore.exists_intern_of_named? hanswer
      exact .inr (.inl ⟨form, by simp [hform], rfl⟩)
    · exact .inl rfl
  | clone handle =>
    simp only [serve]
    split
    · rename_i hmem
      exact .inr (.inr (.inl ⟨handle, hmem, rfl⟩))
    · exact .inl rfl
  | drop handle =>
    simp only [serve]
    split
    · rename_i hmem
      exact .inr (.inr (.inr (.inl ⟨handle, hmem, rfl⟩)))
    · exact .inl rfl
  | reclaim => exact .inr (.inr (.inr (.inr rfl)))

/-- A handle to let go of is one of those that are out. -/
theorem Sound.out (h : c.Sound) {handle : TypeId} (hmem : handle ∈ c.handles) :
    c.store.Sound (handle :: (c.handles.erase handle ++ TypeStore.initial.ownHoldings)) :=
  TypeStore.Sound.perm h
    ((List.perm_cons_erase hmem).append_right TypeStore.initial.ownHoldings)

/-- Every request keeps the ledger. -/
theorem Sound.serve (h : c.Sound) (r : TypeRequest) : (c.serve r).Sound := by
  obtain heq | ⟨form, hcomponents, heq⟩ | ⟨handle, hmem, heq⟩ | ⟨handle, hmem, heq⟩ | heq :=
    c.serve_cases r
  · rwa [heq]
  · rw [heq]
    exact h.take_intern hcomponents
  · rw [heq]
    exact TypeStore.Sound.retain h (h.mem_ids hmem)
  · rw [heq]
    exact (h.out hmem).release
  · rw [heq]
    exact TypeStore.Sound.reclaim h

/-- A run keeps the ledger. -/
theorem sound_run (requests : List TypeRequest) : (run requests).Sound := by
  have hrun : ∀ (c : TypeClient), c.Sound → (requests.foldl TypeClient.serve c).Sound := by
    induction requests with
    | nil => exact fun c hc => hc
    | cons r rs ih => exact fun c hc => ih _ (hc.serve r)
  exact hrun {} TypeStore.Sound.initial

/-- After any run of requests every handle of the client has an object, which denotes a
type; two handles have one object exactly when they denote one type; no two objects have
one form; and the components of an object are objects of the store. -/
theorem same_object_iff_same_type (requests : List TypeRequest) :
    (∀ a ∈ (run requests).handles, ((run requests).store.denote? a).isSome) ∧
    (∀ a ∈ (run requests).handles, ∀ b ∈ (run requests).handles,
      ((run requests).store.get? a = (run requests).store.get? b ↔
        (run requests).store.denote? a = (run requests).store.denote? b)) ∧
    ((run requests).store.objects.map (·.form)).Nodup ∧
    (∀ o ∈ (run requests).store.objects, ∀ k ∈ o.form.components,
      ∃ o' ∈ (run requests).store.objects, o'.id = k) := by
  have h := sound_run requests
  refine ⟨fun a ha => h.denote?_isSome (h.mem_ids ha), ?_, h.forms_nodup, ?_⟩
  · intro a ha b hb
    obtain ⟨o, ho, rfl⟩ := TypeStore.mem_ids.1 (h.mem_ids ha)
    obtain ⟨o', ho', rfl⟩ := TypeStore.mem_ids.1 (h.mem_ids hb)
    rw [TypeStore.Sound.get?_eq h ho, TypeStore.Sound.get?_eq h ho']
    constructor
    · intro heq
      rw [Option.some.inj heq]
    · intro heq
      obtain ⟨t, ht⟩ := Option.isSome_iff_exists.1 (h.denote?_isSome (h.mem_ids ha))
      rw [h.eq_of_id_eq ho ho' (h.eq_of_denote? ht (heq ▸ ht))]
  · intro o ho k hk
    exact TypeStore.mem_ids.1 (TypeStore.Sound.component_mem_ids h ho hk)

-- `u33` outlives its handle below a pointer, and another spelling finds it again
example : (run [.named "u33", .pointer 30 {}, .drop 30, .named "u033", .pointer 30 {},
    .array 31 2]).handles = [32, 31, 30, 31] := by decide +kernel

end TypeClient

end IncrementalBuild
