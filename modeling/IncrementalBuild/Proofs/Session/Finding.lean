import IncrementalBuild.Proofs.Session.Frames
import IncrementalBuild.Proofs.Session.Holdings

/-!
# What resolving a declaration comes to

What a declaration is found to mean depends on its text and on the analyzer alone: its
signature has problems, its body is rejected, the analyzer crashes on it, or it is a prototype
or a function of some type. Resolving it in any session reports just that, keeps it, and
spawns the generation of its code.
-/

set_option autoImplicit false

namespace IncrementalBuild

/-- What the resolution of a declaration comes to. -/
inductive Finding where
  | unreadable (problems : List Diagnostic)
  | rejected (problem : Diagnostic)
  | crashed (message : String)
  | prototype (type : Ty)
  | function (type : Ty) (call : CodegenCall)

namespace Finding

/-- The problems a finding reports. -/
def problems : Finding → List Diagnostic
  | .unreadable problems => problems
  | .rejected problem => [problem]
  | _ => []

/-- How the task ends that comes to a finding. -/
def outcome : Finding → TaskOutcome
  | .crashed message => .crashed (some message)
  | _ => .done

/-- The requests to generate code that follow from a finding. -/
def calls : Finding → List CodegenCall
  | .function _ call => [call]
  | _ => []

/-- A memo keeps a finding: the type that was found, and the value to link if there is one. -/
def KeptBy (types : TypeStore) (d : Decl) (m : Memo Resolution) : Finding → Prop
  | .unreadable _ | .rejected _ => m = .resolved .failed
  | .crashed _ => m = .empty
  | .prototype type => ∃ id, m = .resolved (.resolved id none) ∧ types.denote? id = some type
  | .function type _ =>
    ∃ id, m = .resolved (.resolved id (some (d.value id))) ∧ types.denote? id = some type

/-- The tasks that follow from a finding, given the memo that keeps it. -/
def tasks (m : Memo Resolution) : Finding → List BuildTask
  | .function _ call =>
    match m with
    | .resolved (.resolved _ (some f)) => [.generate call, .link f]
    | _ => []
  | _ => []

end Finding

namespace Decl

/-- The request for the analysis of the body of a declaration, given the types of its
parameters and its result. -/
def request (d : Decl) (params : List Ty) (result : Ty) (body : Span) : AnalysisRequest where
  declName := d.symbol
  params := (d.item.params.zip params).map fun (p, type) => ⟨p.name, type, p.span⟩
  expected := result
  source := innerSource d.file body

/-- The request for the code of a declaration of some type. -/
def call (d : Decl) (type result : Ty) (body : Span) : CodegenCall where
  symbol := d.symbol
  function := d.symbol ++ ": " ++ type.text
  declName := d.name
  isExport := d.isExport
  bodyType := result.text
  bodySpan := body

/-- What the resolution of a declaration comes to with an analyzer. -/
def finding (analyzer : Analyzer) (d : Decl) : Finding :=
  match d.item.meaning? with
  | none => .unreadable (d.item.problems d.file)
  | some (params, result) =>
    let type := Ty.function params result (TypeReading.convention d.item)
    match d.item.body with
    | none => .prototype type
    | some body =>
      match analyzer (d.request params result body) with
      | .crashed message => .crashed message
      | .rejected code message => .rejected (Workshop.rejection d.file body code message)
      | .accepted => .function type (d.call type result body)

end Decl

theorem DiagnosticLog.extend_nil (log : DiagnosticLog) : log.extend [] = log := by
  rw [extend, List.append_nil]

namespace Workshop

variable {w : Workshop} {d : Decl}

theorem typeOf_eq {types : TypeStore} {id : TypeId} {t : Ty} (h : types.denote? id = some t) :
    typeOf types id = t := by
  rw [typeOf, h, Option.getD_some]

theorem map_typeOf_eq {types : TypeStore} {ids : List TypeId} {ts : List Ty}
    (h : TypeForm.trees? types.denote? ids = some ts) : ids.map (typeOf types) = ts := by
  induction ids generalizing ts with
  | nil =>
    rw [TypeForm.trees?] at h
    exact Option.some.inj h
  | cons id ids ih =>
    obtain ⟨t, ht, hrest⟩ := Option.bind_eq_some_iff.1 h
    obtain ⟨us, hus, hts⟩ := Option.bind_eq_some_iff.1 hrest
    rw [List.map_cons, typeOf_eq ht, ih hus]
    exact Option.some.inj hts

theorem bodyRequest_eq {types : TypeStore} {params : List TypeId} {result : TypeId}
    {ts : List Ty} {t : Ty} (hparams : TypeForm.trees? types.denote? params = some ts)
    (hresult : types.denote? result = some t) (body : Span) :
    bodyRequest types d params result body = d.request ts t body := by
  rw [bodyRequest, Decl.request, typeOf_eq hresult, ← map_typeOf_eq hparams, List.zip_map_right,
    List.map_map]
  rfl

/-! ## Work on the way to a finding -/

end Workshop

/-- A session that has come to hold further types and to report problems, and is otherwise as it
was. -/
structure Session.Carries (s : Session) (extra : List TypeId) (problems : List Diagnostic)
    (s' : Session) : Prop where
  balanced : s'.Balanced extra
  grows : s.types.shapes ⊆ s'.types.shapes
  log : s'.log = s.log.extend problems
  exports : s'.exports = s.exports
  linkSet : s'.linkSet = s.linkSet
  resolutions : s'.resolutions = s.resolutions

namespace Session.Carries

variable {s s' : Session} {extra ids : List TypeId} {problems : List Diagnostic}

theorem refl (h : s.Balanced extra) : s.Carries extra [] s :=
  ⟨h, List.Subset.refl _, (DiagnosticLog.extend_nil _).symm, rfl, rfl, rfl⟩

theorem perm (h : s.Carries extra problems s') {extra' : List TypeId} (hp : extra.Perm extra') :
    s.Carries extra' problems s' :=
  ⟨h.balanced.perm hp, h.grows, h.log, h.exports, h.linkSet, h.resolutions⟩

theorem note (h : s.Carries extra problems s') (e : JournalEntry) :
    s.Carries extra problems (s'.note e) :=
  ⟨⟨h.balanced.types, h.balanced.keys⟩, h.grows, h.log, h.exports, h.linkSet, h.resolutions⟩

theorem tell (h : s.Carries extra problems s') (lines : List String) :
    s.Carries extra problems (s'.tell lines) :=
  ⟨⟨h.balanced.types, h.balanced.keys⟩, h.grows, h.log, h.exports, h.linkSet, h.resolutions⟩

theorem report (h : s.Carries extra problems s') (d : Diagnostic) :
    s.Carries extra (problems ++ [d]) (s'.report d) := by
  refine ⟨⟨h.balanced.types, h.balanced.keys⟩, h.grows, ?_, h.exports, h.linkSet, h.resolutions⟩
  unfold Session.report DiagnosticLog.push
  dsimp only
  rw [h.log, DiagnosticLog.extend, DiagnosticLog.extend, List.append_assoc]

theorem releaseTypes (h : s.Carries (ids ++ extra) problems s') :
    s.Carries extra problems (Workshop.releaseTypes s' ids) := by
  obtain ⟨hbalanced, hshapes⟩ := h.balanced.releaseTypes
  exact ⟨hbalanced, hshapes ▸ h.grows, h.log, h.exports, h.linkSet, h.resolutions⟩

theorem retain (h : s.Carries extra problems s') {i : TypeId} (hi : i ∈ extra) :
    s.Carries (i :: extra) problems { s' with types := s'.types.retain i } := by
  refine ⟨h.balanced.retain (h.balanced.mem_ids hi), ?_, h.log, h.exports, h.linkSet, h.resolutions⟩
  exact (TypeStore.shapes_retain s'.types i).symm ▸ h.grows

theorem intern (h : s.Carries extra problems s') {form : TypeForm}
    (hcomponents : ∀ c ∈ form.components, c ∈ extra) :
    s.Carries ((s'.types.intern form).1 :: extra) problems
      { s' with types := (s'.types.intern form).2 } := by
  have hmem : ∀ c ∈ form.components, c ∈ s'.types.ids := fun c hc =>
    h.balanced.mem_ids (hcomponents c hc)
  refine ⟨h.balanced.intern hmem, ?_, h.log, h.exports, h.linkSet, h.resolutions⟩
  exact List.Subset.trans h.grows (TypeStore.intern_denotes h.balanced.types hmem).1

theorem resolution (h : s.Carries extra problems s') (id : DeclId) :
    s'.resolution id = s.resolution id := by
  unfold Session.resolution
  rw [h.resolutions]

end Session.Carries

namespace Workshop

variable {w : Workshop} {d : Decl}

/-- A resolution ends with a finding: it reports and keeps what was found, spawns what follows,
and leaves the other resolutions and the books as they were. -/
structure EndsWith (s : Session) (d : Decl) (r : Step) (finding : Finding) : Prop where
  balanced : r.state.session.Balanced []
  grows : s.types.shapes ⊆ r.state.session.types.shapes
  log : r.state.session.log = s.log.extend finding.problems
  exports : r.state.session.exports = s.exports
  linkSet : r.state.session.linkSet = s.linkSet
  kept : finding.KeptBy r.state.session.types d (r.state.session.resolution d.id)
  others : ∀ id, id ≠ d.id → r.state.session.resolution id = s.resolution id
  outcome : r.outcome = finding.outcome
  spawned : r.spawned = finding.tasks (r.state.session.resolution d.id)

/-- Keeping what was found ends a resolution. -/
theorem endsWith_setResolution {s s' : Session} {m : Memo Resolution} {finding : Finding} {r : Step}
    (h : s.Carries m.held finding.problems s') (hnone : (s.resolution d.id).held = [])
    (hstate : r.state.session = s'.setResolution d.id m)
    (hkept : finding.KeptBy s'.types d m) (houtcome : r.outcome = finding.outcome)
    (hspawned : r.spawned = finding.tasks m) : EndsWith s d r finding := by
  have hresolution (id : DeclId) : r.state.session.resolution id =
      if id = d.id then m else s.resolution id := by
    rw [hstate, Session.resolution_setResolution, h.resolution]
  have hself := (hresolution d.id).trans (if_pos rfl)
  refine ⟨?_, ?_, ?_, ?_, ?_, ?_, fun id hid => ?_, houtcome, ?_⟩
  · rw [hstate]
    refine Session.Balanced.setResolution ?_ ?_
    · rw [List.append_nil]
      exact h.balanced
    · rw [h.resolution, hnone]
  · rw [hstate]
    exact h.grows
  · rw [hstate]
    exact h.log
  · rw [hstate]
    exact h.exports
  · rw [hstate]
    exact h.linkSet
  · rw [hself, hstate]
    exact hkept
  · exact (hresolution id).trans (if_neg hid)
  · rw [hself, hspawned]

theorem settle_eq {s : Session} (hpending : s.resolution d.id = .pending) (r : Resolution) :
    settle s d r = s.setResolution d.id (.resolved r) := by
  rw [settle, hpending]
  rfl

theorem text_eq {types : TypeStore} {id : TypeId} {t : Ty} (h : types.denote? id = some t) :
    types.text id = t.text := by
  rw [TypeStore.text, h, Option.map_some, Option.getD_some]

/-- A type a session carries on denotes what it did. -/
theorem denote?_carried {s s' : Session} {extra extra' : List TypeId} {problems : List Diagnostic}
    (hs : s.Balanced extra) (h : s.Carries extra' problems s') {id : TypeId} {t : Ty}
    (hid : s.types.denote? id = some t) : s'.types.denote? id = some t := by
  rw [hs.types.denote?_mono h.balanced.types (fun _ hx => h.grows hx)
    (TypeStore.mem_ids_of_denote? hid), hid]

/-- The analysis of the body of a declaration comes to what the analyzer says of it. -/
theorem resolveBody_endsWith {s : Session} {params : List TypeId}
    {result type : TypeId} {ts : List Ty} {t ft : Ty} {body : Span}
    (h : s.Carries (params ++ [result] ++ [type]) [] w.session)
    (hpending : w.session.resolution d.id = .pending)
    (hparams : TypeForm.trees? w.session.types.denote? params = some ts)
    (hresult : w.session.types.denote? result = some t)
    (htype : w.session.types.denote? type = some ft) :
    EndsWith s d (w.resolveBody d params result type body)
      (match w.session.analyzer (d.request ts t body) with
        | .crashed message => .crashed message
        | .rejected code message => .rejected (rejection d.file body code message)
        | .accepted => .function ft (d.call ft t body)) := by
  have hnone : (s.resolution d.id).held = [] := by
    rw [← h.resolution, hpending]
    rfl
  unfold resolveBody
  extract_lets before request s₁ gone f call kept told
  have hrequest : request = d.request ts t body := bodyRequest_eq hparams hresult body
  have hcarried : s.Carries ([type] ++ []) [] s₁ := (h.note (analysisEntry request)).releaseTypes
  have hstep : w.session.Carries ([type] ++ []) [] s₁ :=
    ((Session.Carries.refl h.balanced).note (analysisEntry request)).releaseTypes
  have htype₁ : s₁.types.denote? type = some ft := denote?_carried h.balanced hstep htype
  have hpending₁ : s₁.resolution d.id = .pending := hpending
  have hanalyzer : s₁.analyzer = w.session.analyzer := rfl
  rw [hanalyzer, hrequest]
  clear_value s₁
  cases w.session.analyzer (d.request ts t body) with
  | crashed message =>
    dsimp only
    have hgone := hcarried.releaseTypes
    have hpending₂ : (releaseTypes s₁ [type]).resolution d.id = .pending := hpending₁
    rw [hpending₂]
    exact endsWith_setResolution (m := .empty) hgone hnone rfl rfl rfl rfl
  | rejected code message =>
    dsimp only
    have hgone := hcarried.releaseTypes.report (rejection d.file body code message)
    rw [settle_eq ((hgone.resolution _).trans ((h.resolution _).symm.trans hpending))]
    exact endsWith_setResolution (m := .resolved .failed) hgone hnone rfl rfl rfl rfl
  | accepted =>
    dsimp only
    have hcall : call = d.call ft t body := by
      unfold call f
      rw [hrequest, codegenCall, Decl.call, FunctionValue.text, Decl.value, text_eq htype₁]
      rfl
    have htold (base : Session) (hbase : base.Carries ([type] ++ []) [] s₁) :
        base.Carries [type, type] [] told := by
      have hkept : base.Carries [type, type] [] kept := hbase.retain (List.mem_singleton_self _)
      unfold told
      split
      · exact hkept.tell _
      · exact hkept
    have htype₂ : told.types.denote? type = some ft :=
      denote?_carried hcarried.balanced (htold s₁ (.refl hcarried.balanced)) htype₁
    have hpending₂ : told.resolution d.id = .pending :=
      ((htold s hcarried).resolution _).trans ((h.resolution _).symm.trans hpending)
    rw [hcall, settle_eq hpending₂]
    exact endsWith_setResolution (m := .resolved (.resolved type (some f)))
      (htold s hcarried) hnone rfl
      ⟨type, rfl, htype₂⟩ rfl rfl

/-- A session that carries a signature on carries, once the type of its function is interned, that
type as well; each of them denotes what it should. -/
theorem carries_interned {s s₁ : Session} {params : List TypeId} {result : TypeId} {ts : List Ty}
    {t : Ty} (h : s.Carries (params ++ [result]) [] s₁)
    (hparams : TypeForm.trees? s₁.types.denote? params = some ts)
    (hresult : s₁.types.denote? result = some t) (convention : CallingConvention) :
    let interned := s₁.types.intern (.function params result convention)
    let s₂ := { s₁ with types := interned.2 }
    s.Carries (params ++ [result] ++ [interned.1]) [] s₂ ∧
      TypeForm.trees? s₂.types.denote? params = some ts ∧
      s₂.types.denote? result = some t ∧
      s₂.types.denote? interned.1 = some (.function ts t convention) := by
  intro interned s₂
  let form : TypeForm := .function params result convention
  have hcomponents : ∀ c ∈ form.components, c ∈ params ++ [result] := fun c hc => hc
  have hmem : ∀ c ∈ form.components, c ∈ s₁.types.ids := fun c hc => h.balanced.mem_ids hc
  have hgrown : s₁.Carries (interned.1 :: (params ++ [result])) [] s₂ :=
    (Session.Carries.refl h.balanced).intern hcomponents
  refine ⟨(h.intern hcomponents).perm (List.perm_append_singleton ..).symm, ?_,
    denote?_carried h.balanced hgrown hresult, ?_⟩
  · rw [TypeReading.trees?_grown h.balanced.types hgrown.balanced.types hgrown.grows, hparams]
    exact fun id hid => hmem id (List.mem_append_left _ hid)
  · rw [(TypeStore.intern_denotes h.balanced.types hmem).2, TypeForm.toTy?, hparams, hresult]
    rfl

/-- The producer of a resolution comes to the finding of its declaration. -/
theorem produce_endsWith (h : w.session.Balanced [])
    (hpending : w.session.resolution d.id = .pending) :
    EndsWith w.session d (w.produce d) (d.finding w.session.analyzer) := by
  have hnone : (w.session.resolution d.id).held = [] := by
    rw [hpending]
    rfl
  unfold produce
  extract_lets s reading s₁
  have hsound : w.session.types.Sound w.session.held := h.types
  obtain ⟨-, hgrows, -⟩ := @TypeReading.findsAll_ofSignature d.file _ _ hsound d.item
  have hproblems : reading.problems = d.item.problems d.file :=
    TypeReading.problems_ofSignature d.item
  have hcarried (extra : List TypeId) (htypes : reading.types.Sound (extra ++ w.session.held)) :
      w.session.Carries extra (d.item.problems d.file) s₁ := by
    refine ⟨⟨htypes, h.keys⟩, hgrows, ?_, rfl, rfl, rfl⟩
    rw [← hproblems]
  have hpending₁ : s₁.resolution d.id = .pending := hpending
  have hanalyzer : s₁.analyzer = w.session.analyzer := rfl
  rcases @TypeReading.ofSignature_cases d.file _ _ hsound d.item with
    ⟨hmeaning, hfound, htypes⟩ | ⟨ts, t, params, result, hmeaning, hfound, hparams, hresult, htypes⟩
  · have hfound' : reading.found = none := hfound
    rw [hfound']
    dsimp only
    rw [settle_eq hpending₁, Decl.finding, hmeaning]
    exact endsWith_setResolution (m := .resolved .failed) (hcarried [] htypes) hnone rfl rfl rfl rfl
  · have hfound' : reading.found = some (params ++ [result]) := hfound
    rw [hfound']
    dsimp only
    rw [List.dropLast_concat, List.getLast?_concat, Option.getD_some]
    have hno : d.item.problems d.file = [] := by
      rw [FunctionItem.problems_eq_nil, hmeaning]
      rfl
    rw [hno] at hcarried
    let interned := s₁.types.intern (.function params result (TypeReading.convention d.item))
    let s₂ := { s₁ with types := interned.2 }
    let type := interned.1
    obtain ⟨hboth, hparams₂, hresult₂, htype⟩ := carries_interned
      (hcarried (params ++ [result]) htypes) hparams hresult (TypeReading.convention d.item)
    have hpending₂ : s₂.resolution d.id = .pending := hpending
    rw [Decl.finding, hmeaning]
    dsimp only
    cases hbody : d.item.body with
    | none =>
      dsimp only
      have hgone := hboth.releaseTypes
      have hstep : s₂.Carries [type] [] (releaseTypes s₂ (params ++ [result])) :=
        (Session.Carries.refl hboth.balanced).releaseTypes
      have hpending₃ : (releaseTypes s₂ (params ++ [result])).resolution d.id = .pending := hpending
      have hsettle := settle_eq hpending₃ (.resolved type none)
      exact endsWith_setResolution (m := .resolved (.resolved type none)) hgone hnone hsettle
        ⟨type, rfl, denote?_carried hboth.balanced hstep htype⟩ rfl rfl
    | some body =>
      dsimp only
      exact resolveBody_endsWith (w := { w with session := s₂ }) hboth hpending₂ hparams₂ hresult₂
        htype

/-- Resolving a declaration that nobody has resolved yet comes to its finding. -/
theorem resolve_endsWith (h : w.session.Balanced []) (hempty : w.session.resolution d.id = .empty) :
    EndsWith w.session d (w.resolve d) (d.finding w.session.analyzer) := by
  let begun := w.modify (·.setResolution d.id .pending)
  have hresolve : w.resolve d = begun.produce d := by
    unfold resolve
    rw [hempty]
    rfl
  have hnone : (w.session.resolution d.id).held = [] := by
    rw [hempty]
    rfl
  have hbegun : begun.session.Balanced [] := Session.Balanced.setResolution h hnone
  have hpending : begun.session.resolution d.id = .pending :=
    (Session.resolution_setResolution ..).trans (if_pos rfl)
  obtain ⟨hbalanced, hgrows, hlog, hexports, hlinkSet, hkept, hothers, houtcome, hspawned⟩ :=
    produce_endsWith hbegun hpending
  rw [hresolve]
  refine ⟨hbalanced, hgrows, hlog, hexports, hlinkSet, hkept, fun id hid => ?_, houtcome, hspawned⟩
  exact (hothers id hid).trans ((Session.resolution_setResolution ..).trans (if_neg hid))

end Workshop

end IncrementalBuild
