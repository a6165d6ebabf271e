import IncrementalBuild.Proofs.Session.Finding

/-!
# What the tasks after a rebuild do

The tasks that a rebuild spawns, and those these spawn, run in a session whose books are
balanced. Each declaration is resolved once, and comes to its finding; a function is linked
only while its type is there. Which tasks have something to report, and which of them fail,
is then known from the analyzer and the generator alone.
-/

set_option autoImplicit false

namespace IncrementalBuild

namespace BuildTask

/-- The declaration a task resolves, if it resolves one. -/
def resolves? : BuildTask → Option Decl
  | .resolve d => some d
  | _ => none

/-- The declaration whose symbol a task claims, if it claims one. -/
def claims? : BuildTask → Option Decl
  | .claim _ d => some d
  | _ => none

/-- The problems a task reports, given the symbols in use. -/
def reports (analyzer : Analyzer) (exports : ExportTable) : BuildTask → List Diagnostic
  | .claim ticket d => (exports.claim ticket d).1.toList.map Workshop.collisionProblem
  | .resolve d => (d.finding analyzer).problems
  | .runComptime file block =>
    match analyzer (Workshop.comptimeRequest file block) with
    | .rejected code message => [Workshop.rejection file block code message]
    | _ => []
  | _ => []

/-- How a task ends. -/
def ends (analyzer : Analyzer) (generator : CodeGenerator) : BuildTask → TaskOutcome
  | .resolve d => (d.finding analyzer).outcome
  | .runComptime file block =>
    match analyzer (Workshop.comptimeRequest file block) with
    | .crashed message => .crashed (some message)
    | _ => .done
  | .generate call => generator call
  | _ => .done

/-- The symbols in use after a task. -/
def exportsAfter (exports : ExportTable) : BuildTask → ExportTable
  | .claim ticket d => (exports.claim ticket d).2
  | _ => exports

end BuildTask

namespace Session

variable {s : Session}

theorem mem_ids_of_grows {t : TypeStore} (h : s.types.shapes ⊆ t.shapes) {id : TypeId}
    (hid : id ∈ s.types.ids) : id ∈ t.ids := by
  obtain ⟨o, ho, rfl⟩ := TypeStore.mem_ids.1 hid
  obtain ⟨o', ho', hshape⟩ := List.mem_map.1 (h (List.mem_map_of_mem ho))
  exact TypeStore.mem_ids.2 ⟨o', ho', (Prod.mk.inj hshape).1⟩

/-- A session is ready for tasks that wait: its books are balanced, the declarations to resolve
are different and not resolved yet, and the types of the functions to link are there. -/
structure Ready (s : Session) (tasks : List BuildTask) : Prop where
  balanced : s.Balanced []
  unresolved : ∀ d, .resolve d ∈ tasks → s.resolution d.id = .empty
  distinct : ((tasks.filterMap BuildTask.resolves?).map (·.id)).Nodup
  linkable : ∀ f, .link f ∈ tasks → f.type ∈ s.types.ids
  noRebuild : ∀ t ∈ tasks, t.isRebuild = false

/-- A session that has grown to another by a task: types and resolutions there are stay. -/
structure GrowsTo (s : Session) (touched : List DeclId) (s' : Session) : Prop where
  types : s.types.shapes ⊆ s'.types.shapes
  resolutions : ∀ id, id ∉ touched → s'.resolution id = s.resolution id

theorem Ready.tail {task : BuildTask} {tasks : List BuildTask} (h : s.Ready (task :: tasks))
    {s' : Session} (hbalanced : s'.Balanced []) (hgrows : s.types.shapes ⊆ s'.types.shapes)
    (hsame : ∀ d, .resolve d ∈ tasks → s'.resolution d.id = s.resolution d.id) :
    s'.Ready tasks := by
  refine ⟨hbalanced, fun d hd => ?_, ?_, fun f hf => ?_, fun t ht => ?_⟩
  · rw [hsame d hd]
    exact h.unresolved d (List.mem_cons_of_mem _ hd)
  · have hsub := ((List.sublist_cons_self task tasks).filterMap BuildTask.resolves?).map (·.id)
    exact h.distinct.sublist hsub
  · exact mem_ids_of_grows hgrows (h.linkable f (List.mem_cons_of_mem _ hf))
  · exact h.noRebuild t (List.mem_cons_of_mem _ ht)

end Session

namespace Workshop

variable {w : Workshop} {task : BuildTask} {tasks : List BuildTask}

/-- What a task does in a session that is ready for it and for others after it: it reports and
ends as it has to, and the session is ready for the others and for what it spawns. -/
structure Does (w : Workshop) (task : BuildTask) (tasks : List BuildTask) : Prop where
  ready : (runTask task w).state.session.Ready tasks
  grows : w.session.GrowsTo (task.resolves?.toList.map (·.id)) (runTask task w).state.session
  log : (runTask task w).state.session.log =
    w.session.log.extend (task.reports w.session.analyzer w.session.exports)
  ends : (runTask task w).outcome = task.ends w.session.analyzer w.toolchain.generator
  exports : (runTask task w).state.session.exports = task.exportsAfter w.session.exports
  kept : ∀ d, task = .resolve d → (d.finding w.session.analyzer).KeptBy
    (runTask task w).state.session.types d ((runTask task w).state.session.resolution d.id)
  spawned : ∀ d, task = .resolve d → (runTask task w).spawned =
    (d.finding w.session.analyzer).tasks ((runTask task w).state.session.resolution d.id)
  spawnedElse : (∀ d, task ≠ .resolve d) → (runTask task w).spawned = []

/-- A task that resolves nothing does what it has to if it keeps types and resolutions. -/
theorem does_of_steady (h : w.session.Ready (task :: tasks)) (htask : ∀ d, task ≠ .resolve d)
    (hbalanced : (runTask task w).state.session.Balanced [])
    (hgrows : w.session.types.shapes ⊆ (runTask task w).state.session.types.shapes)
    (hsame : (runTask task w).state.session.resolutions = w.session.resolutions)
    (hlog : (runTask task w).state.session.log =
      w.session.log.extend (task.reports w.session.analyzer w.session.exports))
    (hends : (runTask task w).outcome = task.ends w.session.analyzer w.toolchain.generator)
    (hexports : (runTask task w).state.session.exports = task.exportsAfter w.session.exports)
    (hspawned : (runTask task w).spawned = []) : Does w task tasks := by
  have hresolution (id : DeclId) :
      (runTask task w).state.session.resolution id = w.session.resolution id := by
    unfold Session.resolution
    rw [hsame]
  refine ⟨h.tail hbalanced hgrows fun d _ => hresolution d.id, ⟨hgrows, fun id _ => hresolution id⟩,
    hlog, hends, hexports, ?_, ?_, fun _ => hspawned⟩
  · exact fun d heq => absurd heq (htask d)
  · exact fun d heq => absurd heq (htask d)

theorem does_claim {ticket : ClaimTicket} {d : Decl}
    (h : w.session.Ready (.claim ticket d :: tasks)) : Does w (.claim ticket d) tasks := by
  have hbalanced := h.balanced
  have hrun : runTask (.claim ticket d) w = w.claim ticket d := rfl
  rw [claim] at hrun
  dsimp only at hrun
  cases hcollision : (w.session.exports.claim ticket d).1 with
  | none =>
    rw [hcollision] at hrun
    apply does_of_steady h
    · exact fun _ heq => by cases heq
    · rw [hrun]
      exact ⟨hbalanced.types, hbalanced.keys⟩
    · rw [hrun]
      exact List.Subset.refl _
    · rw [hrun]
    · rw [hrun, BuildTask.reports, hcollision]
      exact (DiagnosticLog.extend_nil _).symm
    · rw [hrun]
      rfl
    · rw [hrun]
      rfl
    · rw [hrun]
  | some c =>
    rw [hcollision] at hrun
    apply does_of_steady h
    · exact fun _ heq => by cases heq
    · rw [hrun]
      exact ⟨hbalanced.types, hbalanced.keys⟩
    · rw [hrun]
      exact List.Subset.refl _
    · rw [hrun]
      rfl
    · rw [hrun, BuildTask.reports, hcollision]
      rfl
    · rw [hrun]
      rfl
    · rw [hrun]
      rfl
    · rw [hrun]

theorem does_runComptime {file : SourceFile} {block : Span}
    (h : w.session.Ready (.runComptime file block :: tasks)) :
    Does w (.runComptime file block) tasks := by
  have hbalanced := h.balanced
  have hrun : runTask (.runComptime file block) w = w.runComptime file block := rfl
  have hanalyzer : (w.session.note (analysisEntry (comptimeRequest file block))).analyzer =
      w.session.analyzer := rfl
  rw [runComptime, hanalyzer] at hrun
  cases hverdict : w.session.analyzer (comptimeRequest file block) with
  | _ =>
    rw [hverdict] at hrun
    apply does_of_steady h
    · exact fun _ heq => by cases heq
    · rw [hrun]
      exact ⟨hbalanced.types, hbalanced.keys⟩
    · rw [hrun]
      exact List.Subset.refl _
    · rw [hrun]
      rfl
    · rw [hrun, BuildTask.reports, hverdict]
      first | exact (DiagnosticLog.extend_nil _).symm | rfl
    · rw [hrun, BuildTask.ends, hverdict]
    · rw [hrun]
      rfl
    · rw [hrun]

theorem does_resolve {d : Decl} (h : w.session.Ready (.resolve d :: tasks)) :
    Does w (.resolve d) tasks := by
  have hempty := h.unresolved d (List.mem_cons_self ..)
  obtain ⟨hbalanced, hgrows, hlog, hexports, -, hkept, hothers, houtcome, hspawned⟩ :=
    resolve_endsWith h.balanced hempty
  have hdistinct : ∀ d', .resolve d' ∈ tasks → d'.id ≠ d.id := by
    intro d' hd' heq
    have hnodup := h.distinct
    rw [List.filterMap_cons, BuildTask.resolves?, List.map_cons, List.nodup_cons] at hnodup
    refine hnodup.1 (List.mem_map.2 ⟨d', ?_, heq⟩)
    exact List.mem_filterMap.2 ⟨_, hd', rfl⟩
  refine ⟨?_, ⟨hgrows, ?_⟩, hlog, houtcome, hexports, ?_, ?_, ?_⟩
  · exact h.tail hbalanced hgrows fun d' hd' => hothers d'.id (hdistinct d' hd')
  · intro id hid
    refine hothers id ?_
    simpa [BuildTask.resolves?] using hid
  · rintro d' heq
    cases heq
    exact hkept
  · rintro d' heq
    cases heq
    exact hspawned
  · exact fun hno => absurd rfl (hno d)

theorem does_generate {call : CodegenCall} (h : w.session.Ready (.generate call :: tasks)) :
    Does w (.generate call) tasks := by
  have hends : (w.toolchain.generate call).1 = w.toolchain.generator call := by
    unfold Toolchain.generate
    dsimp only
    split
    · rename_i hdone
      exact hdone.symm
    · rfl
  apply does_of_steady h
  · exact fun _ heq => by cases heq
  · exact h.balanced
  · exact List.Subset.refl _
  · rfl
  · exact (DiagnosticLog.extend_nil _).symm
  · exact hends
  · rfl
  · rfl

theorem balanced_linked {s : Session} {f : FunctionValue} (h : s.Balanced [])
    (hf : f.type ∈ s.types.ids) :
    { s with
      linkSet := ⟨s.linkSet.functions ++ [f]⟩, types := s.types.retain f.type }.Balanced [] := by
  refine ⟨(h.retain hf).types.perm ?_, h.keys⟩
  unfold Session.held
  dsimp only
  rw [List.map_append, List.map_singleton, List.perm_iff_count]
  intro id
  simp only [List.count_append, List.count_cons, List.count_nil]
  omega

theorem does_link {f : FunctionValue} (h : w.session.Ready (.link f :: tasks)) :
    Does w (.link f) tasks := by
  have hf := h.linkable f (List.mem_cons_self ..)
  have hrun : runTask (.link f) w = { state := w.modify fun s =>
      { s with
        linkSet := (w.session.linkSet.insert f).2
        types := if (w.session.linkSet.insert f).1 then s.types.retain f.type
          else s.types } } := rfl
  by_cases hold : w.session.linkSet.contains f.symbol = true
  · have hinsert : w.session.linkSet.insert f = (false, w.session.linkSet) := if_pos hold
    rw [hinsert] at hrun
    apply does_of_steady h
    · exact fun _ heq => by cases heq
    · rw [hrun]
      exact h.balanced
    · rw [hrun]
      exact List.Subset.refl _
    · rw [hrun]
      rfl
    · rw [hrun]
      exact (DiagnosticLog.extend_nil _).symm
    · rw [hrun]
      rfl
    · rw [hrun]
      rfl
    · rw [hrun]
  · have hinsert : w.session.linkSet.insert f = (true, ⟨w.session.linkSet.functions ++ [f]⟩) :=
      if_neg hold
    rw [hinsert] at hrun
    apply does_of_steady h
    · exact fun _ heq => by cases heq
    · rw [hrun]
      exact balanced_linked h.balanced hf
    · rw [hrun]
      exact (TypeStore.shapes_retain w.session.types f.type).symm ▸ List.Subset.refl _
    · rw [hrun]
      rfl
    · rw [hrun]
      exact (DiagnosticLog.extend_nil _).symm
    · rw [hrun]
      rfl
    · rw [hrun]
      rfl
    · rw [hrun]

/-- A task does what it has to in a session that is ready for it. -/
theorem does_of_ready (h : w.session.Ready (task :: tasks)) : Does w task tasks := by
  cases task with
  | rebuild path =>
    have hno := h.noRebuild _ (List.mem_cons_self ..)
    cases hno
  | claim ticket d => exact does_claim h
  | resolve d => exact does_resolve h
  | runComptime file block => exact does_runComptime h
  | generate call => exact does_generate h
  | link f => exact does_link h

end Workshop

end IncrementalBuild
