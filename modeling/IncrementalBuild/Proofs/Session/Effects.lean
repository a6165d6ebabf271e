import IncrementalBuild.Proofs.Session.Settled
import IncrementalBuild.Proofs.Task.History

/-!
# What single tasks change

What a task does to the resolutions, to the link set and to the requests for code, in whatever
state it runs. A resolution that is there is never touched again, a task that resolves a
declaration touches no other, and only the one that finds a function spawns the generation of
its code and its way into the link set.
-/

set_option autoImplicit false

namespace IncrementalBuild

/-- The value that was found for a declaration, if there is one. -/
def Session.value? (s : Session) (d : Decl) : Option FunctionValue :=
  match s.resolution d.id with
  | .resolved (.resolved _ value) => value
  | _ => none

namespace BuildTask

/-- Whether a task delivers what a resolution has found: as code, or to the link set. -/
def isDelivery : BuildTask → Bool
  | .generate _ | .link _ => true
  | _ => false

/-- The request for code a task makes, if it makes one. -/
def generates? : BuildTask → Option CodegenCall
  | .generate call => some call
  | _ => none

/-- The function a task links, if it links one. -/
def links? : BuildTask → Option FunctionValue
  | .link f => some f
  | _ => none

end BuildTask

/-- A task resolves a declaration that nobody resolved before, to a function with a body; it keeps
the value and spawns the generation of its code and its way into the link set. -/
structure TaskRun.Builds (x : TaskRun Workshop BuildTask) (d : Decl) : Prop where
  task : x.task = .resolve d
  first : x.before.session.resolution d.id = .empty
  built : ∃ body type call, d.item.body = some body ∧
    (x.step Workshop.runTask).state.session.resolution d.id =
      .resolved (.resolved type (some (d.value type))) ∧
    (x.step Workshop.runTask).spawned = [.generate call, .link (d.value type)]

namespace Workshop

variable {w : Workshop} {d : Decl} {task : BuildTask}

/-! ## Resolving -/

/-- What the producer of a resolution leaves: the other resolutions as they were, and tasks only
if it has found a function. -/
structure Produced (w : Workshop) (d : Decl) (r : Step) : Prop where
  others : ∀ id, id ≠ d.id → r.state.session.resolution id = w.session.resolution id
  spawned : r.spawned = [] ∨ ∃ body type call, d.item.body = some body ∧
    r.state.session.resolution d.id = .resolved (.resolved type (some (d.value type))) ∧
    r.spawned = [.generate call, .link (d.value type)]

/-- A session in which one memo has changed, after work that touches no other. -/
theorem produced_of_setResolution {s : Session} {m : Memo Resolution} {r : Step}
    (hsame : s.resolutions = w.session.resolutions)
    (hstate : r.state.session.resolutions = (s.setResolution d.id m).resolutions)
    (hspawned : r.spawned = [] ∨ ∃ body type call, d.item.body = some body ∧
      m = .resolved (.resolved type (some (d.value type))) ∧
      r.spawned = [.generate call, .link (d.value type)]) : Produced w d r := by
  have hresolution (id : DeclId) : r.state.session.resolution id =
      if id = d.id then m else w.session.resolution id := by
    rw [Session.resolution_congr hstate, Session.resolution_setResolution,
      Session.resolution_congr hsame]
  refine ⟨fun id hid => (hresolution id).trans (if_neg hid), ?_⟩
  rcases hspawned with hnone | ⟨body, type, call, hbody, hm, hspawned⟩
  · exact .inl hnone
  · right
    refine ⟨body, type, call, hbody, ?_, hspawned⟩
    rw [hresolution, if_pos rfl, hm]

theorem resolveBody_produced {params : List TypeId} {result type : TypeId} {body : Span}
    (hbody : d.item.body = some body) (hpending : w.session.resolution d.id = .pending) :
    Produced w d (w.resolveBody d params result type body) := by
  unfold resolveBody
  extract_lets before request s₁ gone f call kept told
  have hsame : s₁.resolutions = w.session.resolutions := rfl
  clear_value s₁
  cases s₁.analyzer request with
  | crashed message =>
    refine produced_of_setResolution (s := releaseTypes s₁ [type]) (m := .empty) hsame ?_ (.inl rfl)
    have hgone : (releaseTypes s₁ [type]).resolution d.id = .pending :=
      (Session.resolution_congr hsame d.id).trans hpending
    dsimp only
    rw [hgone]
    rfl
  | rejected code message =>
    refine produced_of_setResolution (m := .resolved .failed)
      (s := (releaseTypes s₁ [type]).report (rejection d.file body code message)) hsame ?_ (.inl rfl)
    refine congrArg Session.resolutions (settle_eq ?_ _)
    exact (Session.resolution_congr hsame d.id).trans hpending
  | accepted =>
    have htold : told.resolutions = w.session.resolutions := by
      unfold told
      split
      · exact hsame
      · exact hsame
    refine produced_of_setResolution (s := told) (m := .resolved (.resolved type (some f))) htold ?_
      (.inr ⟨body, type, call, hbody, rfl, rfl⟩)
    refine congrArg Session.resolutions (settle_eq ?_ _)
    exact (Session.resolution_congr htold d.id).trans hpending

theorem produce_produced (hpending : w.session.resolution d.id = .pending) :
    Produced w d (w.produce d) := by
  unfold produce
  extract_lets s reading s₁
  have hsame : s₁.resolutions = w.session.resolutions := rfl
  clear_value s₁
  cases reading.found with
  | none =>
    refine produced_of_setResolution (s := s₁) (m := .resolved .failed) hsame ?_ (.inl rfl)
    refine congrArg Session.resolutions (settle_eq ?_ _)
    exact (Session.resolution_congr hsame d.id).trans hpending
  | some ids =>
    dsimp only
    generalize s₁.types.intern (.function ids.dropLast (ids.getLast?.getD 0)
      (TypeReading.convention d.item)) = interned
    cases hbody : d.item.body with
    | some body =>
      have hpending₁ : { s₁ with types := interned.2 }.resolution d.id = .pending :=
        (Session.resolution_congr hsame d.id).trans hpending
      let v : Workshop := { w with session := { s₁ with types := interned.2 } }
      have hproduced : Produced v d
          (v.resolveBody d ids.dropLast (ids.getLast?.getD 0) interned.1 body) :=
        resolveBody_produced hbody hpending₁
      obtain ⟨hothers, hspawned⟩ := hproduced
      refine ⟨fun id hid => (hothers id hid).trans ?_, hspawned⟩
      exact Session.resolution_congr hsame id
    | none =>
      refine produced_of_setResolution (m := .resolved (.resolved interned.1 none))
        (s := releaseTypes { s₁ with types := interned.2 } ids) hsame ?_ (.inl rfl)
      refine congrArg Session.resolutions (settle_eq ?_ _)
      exact (Session.resolution_congr hsame d.id).trans hpending

/-- Resolving a declaration does nothing, unless nobody has resolved it before. -/
theorem resolve_cases (w : Workshop) (d : Decl) :
    (w.session.resolution d.id ≠ .empty ∧ w.resolve d = { state := w }) ∨
      (w.session.resolution d.id = .empty ∧ Produced w d (w.resolve d)) := by
  unfold resolve
  cases hmemo : w.session.resolution d.id with
  | pending => exact .inl ⟨by simp, rfl⟩
  | resolved r => exact .inl ⟨by simp, rfl⟩
  | empty =>
    right
    have hbegun : (w.modify (·.setResolution d.id .pending)).session.resolution d.id = .pending :=
      (Session.resolution_setResolution ..).trans (if_pos rfl)
    obtain ⟨hothers, hspawned⟩ := produce_produced hbegun
    refine ⟨rfl, fun id hid => ?_, hspawned⟩
    apply (hothers id hid).trans
    exact (Session.resolution_setResolution ..).trans (if_neg hid)

/-! ## All tasks -/

/-- A task changes no resolution but that of the declaration it resolves. -/
theorem runTask_resolution {id : DeclId} (h : ∀ d, task = .resolve d → d.id ≠ id) :
    (runTask task w).state.session.resolution id = w.session.resolution id := by
  cases task with
  | rebuild path => exact Session.resolution_congr (rebuild_resolutions w path) id
  | resolve d =>
    show (w.resolve d).state.session.resolution id = _
    rcases resolve_cases w d with ⟨-, hsame⟩ | ⟨-, hothers, -⟩
    · rw [hsame]
    · exact hothers id (h d rfl).symm
  | claim ticket d =>
    unfold runTask claim
    dsimp only
    split <;> rfl
  | runComptime file block =>
    unfold runTask runComptime
    dsimp only
    split <;> rfl
  | generate call => rfl
  | link f => rfl

/-- A declaration that was resolved stays as it was resolved. -/
theorem runTask_resolved {id : DeclId} {r : Resolution}
    (h : w.session.resolution id = .resolved r) (task : BuildTask) :
    (runTask task w).state.session.resolution id = .resolved r := by
  by_cases hown : ∃ d, task = .resolve d ∧ d.id = id
  · obtain ⟨d, rfl, rfl⟩ := hown
    show (w.resolve d).state.session.resolution d.id = _
    rcases resolve_cases w d with ⟨-, hsame⟩ | ⟨hempty, -⟩
    · rw [hsame, h]
    · rw [h] at hempty
      cases hempty
  · rw [runTask_resolution, h]
    intro d htask hid
    exact hown ⟨d, htask, hid⟩

theorem rebuild_delivers (w : Workshop) (path : String) :
    ∀ t ∈ (w.rebuild path).spawned, t.isDelivery = false := by
  obtain ⟨names, file, changes, problems, hrebuilt, -⟩ := rebuild_carries_out w path
  intro t ht
  rw [hrebuilt.spawned] at ht
  rcases Change.mem_tasks ht with ⟨_, _, rfl⟩ | ⟨_, _, rfl⟩ | ⟨_, rfl⟩
  · rfl
  · rfl
  · rfl

/-- What a rebuild spawns spawns nothing but deliveries. -/
theorem runTask_delivers {task : BuildTask} (h : task.isRebuild = false) (w : Workshop) :
    ∀ t ∈ (runTask task w).spawned, t.isDelivery = true := by
  cases task with
  | rebuild path => cases h
  | claim ticket d => simp [runTask, claim]
  | resolve d =>
    show ∀ t ∈ (w.resolve d).spawned, t.isDelivery = true
    rcases resolve_cases w d with ⟨-, hsame⟩ | ⟨-, -, hnone | ⟨_, _, _, _, _, hboth⟩⟩
    · simp [hsame]
    · simp [hnone]
    · simp [hboth, BuildTask.isDelivery]
  | runComptime file block =>
    unfold runTask runComptime
    dsimp only
    split <;> simp
  | generate call => simp [runTask, generate]
  | link f => simp [runTask, enterLinkSet]

/-- Only the first resolution of a function with a body spawns deliveries, one of each kind. -/
theorem builds_of_delivery (x : TaskRun Workshop BuildTask) {t : BuildTask}
    (ht : t ∈ (x.step runTask).spawned) (hdelivery : t.isDelivery = true) : ∃ d, x.Builds d := by
  obtain ⟨w, task⟩ := x
  change t ∈ (runTask task w).spawned at ht
  cases task with
  | rebuild path =>
    rw [rebuild_delivers w path t ht] at hdelivery
    cases hdelivery
  | claim ticket d => cases ht
  | resolve d =>
    change t ∈ (w.resolve d).spawned at ht
    rcases resolve_cases w d with ⟨-, hsame⟩ | ⟨hempty, -, hnone | hbuilt⟩
    · rw [hsame] at ht
      cases ht
    · rw [hnone] at ht
      cases ht
    · exact ⟨d, rfl, hempty, hbuilt⟩
  | runComptime file block =>
    unfold runTask runComptime at ht
    dsimp only at ht
    split at ht <;> cases ht
  | generate call => cases ht
  | link f => cases ht

/-! ## The link set and the requests for code -/

/-- A task links the function it is about, and no other. -/
theorem runTask_linkSet (task : BuildTask) (w : Workshop) :
    (runTask task w).state.session.linkSet =
      task.links?.toList.foldl (fun set f => (set.insert f).2) w.session.linkSet := by
  cases task with
  | rebuild path => exact rebuild_linkSet w path
  | resolve d =>
    have hframe := congrArg (fun s => s.linkSet) (resolve_frame w d)
    exact hframe
  | claim ticket d =>
    unfold runTask claim
    dsimp only
    split <;> rfl
  | runComptime file block =>
    unfold runTask runComptime
    dsimp only
    split <;> rfl
  | generate call => rfl
  | link f => rfl

/-- A task requests the code it is about, and no other. -/
theorem runTask_calls (task : BuildTask) (w : Workshop) :
    (runTask task w).state.toolchain.calls = w.toolchain.calls ++ task.generates?.toList := by
  have hsame {t : Toolchain} (h : t = w.toolchain) : t.calls = w.toolchain.calls ++ [] := by
    rw [h, List.append_nil]
  cases task with
  | rebuild path => exact hsame (rebuild_toolchain w path)
  | resolve d =>
    apply hsame
    show (w.resolve d).state.toolchain = w.toolchain
    unfold resolve
    split
    · exact produce_toolchain ..
    · rfl
  | claim ticket d => exact hsame rfl
  | runComptime file block =>
    apply hsame
    unfold runTask runComptime
    dsimp only
    split <;> rfl
  | generate call =>
    show (w.toolchain.generate call).2.calls = w.toolchain.calls ++ [call]
    unfold Toolchain.generate
    dsimp only
    split <;> rfl
  | link f => exact hsame rfl

/-- What the tasks of a line do to the link set and to the requests for code. -/
theorem endOf_delivers (tasks : List BuildTask) (w : Workshop) :
    (endOf runTask tasks w).session.linkSet =
        (tasks.filterMap (·.links?)).foldl (fun set f => (set.insert f).2) w.session.linkSet ∧
      (endOf runTask tasks w).toolchain.calls =
        w.toolchain.calls ++ tasks.filterMap (·.generates?) := by
  induction tasks generalizing w with
  | nil => exact ⟨rfl, (List.append_nil _).symm⟩
  | cons task tasks ih =>
    obtain ⟨hlinkSet, hcalls⟩ := ih (runTask task w).state
    refine ⟨hlinkSet.trans ?_, hcalls.trans ?_⟩
    · rw [runTask_linkSet, ← List.foldl_append, List.filterMap_cons]
      cases task.links? <;> rfl
    · rw [runTask_calls, List.append_assoc, List.filterMap_cons]
      cases task.generates? <;> rfl

end Workshop

end IncrementalBuild
