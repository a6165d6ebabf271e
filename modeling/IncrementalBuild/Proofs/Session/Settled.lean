import IncrementalBuild.Proofs.Session.Symbols
import IncrementalBuild.Proofs.Session.Reachable

/-!
# Between two cycles

Between its cycles a session is settled: its books are balanced, it has no problem noted, the
symbols in use are names of live declarations, and for every live declaration that is exported
it keeps what that declaration was found to be. A cycle that rebuilds one file leads from one
settled state to another.
-/

set_option autoImplicit false

namespace IncrementalBuild

theorem mem_exported {d : Decl} {decls : List Decl} :
    d ∈ exported decls ↔ d ∈ decls ∧ d.isExport = true := List.mem_filter

namespace Change

variable {names : Interner} {file : SourceFile} {next : DeclId} {changes : List Change}

/-- What changes make has none of the numbers given away before. -/
theorem notMem_exported_of_lt {id : DeclId} (hid : id < next) :
    id ∉ (exported (made names file next changes)).map (·.id) := by
  intro hmem
  obtain ⟨d, hd, rfl⟩ := List.mem_map.1 hmem
  exact Nat.not_lt.2 (le_id_made d (mem_exported.1 hd).1) hid

/-- What changes make has none of the numbers that are left. -/
theorem notMem_exported_of_le {id : DeclId}
    (hid : next + (made names file next changes).length ≤ id) :
    id ∉ (exported (made names file next changes)).map (·.id) := by
  intro hmem
  obtain ⟨d, hd, rfl⟩ := List.mem_map.1 hmem
  exact Nat.not_lt.2 hid (id_made_lt d (mem_exported.1 hd).1)

end Change

/-- What holds of a session between two cycles. -/
structure Session.Settled (s : Session) : Prop where
  balanced : s.Balanced []
  quiet : s.log = {}
  unresolved : ∀ id, s.nextDecl ≤ id → s.resolution id = .empty
  numbered : ∀ d ∈ s.table.decls, d.id < s.nextDecl
  nodup : (s.table.decls.map (·.symbol)).Nodup
  claimed : ∀ symbol ∈ s.exports.inUse, symbol ∈ s.table.decls.map (·.symbol)
  kept : ∀ d ∈ s.table.decls, d.isExport → (d.finding s.analyzer).KeptBy s.types d
    (s.resolution d.id)

namespace Workshop

variable {w : Workshop} {root : String} {names : Interner} {file : SourceFile}
  {changes : List Change} {problems : List Diagnostic}

/-- After a rebuild a settled session is ready for what the rebuild spawned. -/
theorem Rebuilt.ready {s : Session} {r : Step} (h : Rebuilt s names file changes problems r)
    (hs : s.Settled) : r.state.session.Ready r.spawned := by
  have hresolved : BuildTask.resolved r.spawned =
      exported (Change.made names file s.nextDecl changes) := by
    rw [h.spawned]
    exact Change.resolved_tasks
  have hspawned := h.spawned
  refine ⟨hs.balanced.congr h.types h.resolutions h.linkSet, fun d hd => ?_, ?_, fun f hf => ?_,
    fun t ht => ?_⟩
  · have hmade := BuildTask.mem_resolved.2 hd
    rw [hresolved, mem_exported] at hmade
    rw [Session.resolution_congr h.resolutions]
    exact hs.unresolved d.id (Change.le_id_made d hmade.1)
  · have hnodup : ((Change.made names file s.nextDecl changes).map (·.id)).Nodup :=
      Change.nodup_id_made
    change ((BuildTask.resolved r.spawned).map (·.id)).Nodup
    rw [hresolved]
    exact hnodup.sublist (List.filter_sublist.map _)
  · rw [hspawned] at hf
    rcases Change.mem_tasks hf with ⟨_, _, heq⟩ | ⟨_, _, heq⟩ | ⟨_, heq⟩
    · cases heq
    · cases heq
    · cases heq
  · rw [hspawned] at ht
    rcases Change.mem_tasks ht with ⟨_, _, rfl⟩ | ⟨_, _, rfl⟩ | ⟨_, rfl⟩
    · rfl
    · rfl
    · rfl

theorem level_doAll {r : GroupRun Workshop BuildTask} (h : r.state.session.Ready r.waiting) :
    DoAll { r with waiting := [] } r.waiting (r.level groupName runTask)
      (r.level groupName runTask).waiting := by
  obtain ⟨new, hall⟩ := doAll_of_ready (r := { r with waiting := [] }) h
  have hwaiting : (r.level groupName runTask).waiting = new :=
    hall.waiting.trans (List.nil_append _)
  rw [hwaiting]
  exact hall

/-- Tasks that follow from resolutions report nothing and claim no symbol. -/
theorem Follow.silent {analyzer : Analyzer} {decls : List Decl} {s : Session}
    {tasks : List BuildTask} (h : Follow analyzer decls s tasks) (exports : ExportTable) :
    BuildTask.reportsOf analyzer exports tasks = [] ∧
      tasks.foldl BuildTask.exportsAfter exports = exports := by
  have hquiet : ∀ t ∈ tasks,
      t.reports analyzer exports = [] ∧ t.exportsAfter exports = exports := by
    intro t ht
    rcases h.only t ht with ⟨_, _, _, _, rfl⟩ | ⟨_, rfl, _⟩
    · exact ⟨rfl, rfl⟩
    · exact ⟨rfl, rfl⟩
  clear h
  induction tasks with
  | nil => exact ⟨rfl, rfl⟩
  | cons t tasks ih =>
    obtain ⟨⟨hreports, hexports⟩, htail⟩ := List.forall_mem_cons.1 hquiet
    obtain ⟨hrest, hafter⟩ := ih htail
    refine ⟨?_, ?_⟩
    · rw [BuildTask.reportsOf, hreports, hexports, hrest, List.append_nil]
    · rw [List.foldl_cons, hexports, hafter]

theorem error?_eq_none {group : String} {outcome : TaskOutcome} :
    outcome.error? group = none ↔ outcome = .done := by
  cases outcome <;> simp [TaskOutcome.error?]

theorem errorsOf_eq_nil {analyzer : Analyzer} {generator : CodeGenerator} {tasks : List BuildTask} :
    BuildTask.errorsOf analyzer generator tasks = [] ↔
      ∀ t ∈ tasks, t.ends analyzer generator = .done := by
  unfold BuildTask.errorsOf
  rw [List.flatMap_eq_nil_iff]
  refine forall₂_congr fun t _ => ?_
  rw [Option.toList_eq_nil_iff, error?_eq_none]

/-- Of the tasks that follow from resolutions only the generation of code can fail. -/
theorem Follow.errorsOf_eq_nil {analyzer : Analyzer} {generator : CodeGenerator}
    {decls : List Decl} {s : Session} {tasks : List BuildTask}
    (h : Follow analyzer decls s tasks) :
    BuildTask.errorsOf analyzer generator tasks = [] ↔
      ∀ d ∈ decls, ∀ call ∈ (d.finding analyzer).calls, generator call = .done := by
  rw [Workshop.errorsOf_eq_nil]
  constructor
  · intro hdone d hd call hcall
    exact hdone _ (h.all d hd call hcall)
  · intro hdone t ht
    rcases h.only t ht with ⟨d, hd, call, hcall, rfl⟩ | ⟨_, rfl, _⟩
    · exact hdone d hd call hcall
    · rfl

/-- What all the tasks of a cycle do to a settled session whose file is rebuilt. -/
structure Compiled (w : Workshop) (names : Interner) (file : SourceFile) (changes : List Change)
    (problems : List Diagnostic) (r : Step) (run : GroupRun Workshop BuildTask) : Prop where
  balanced : run.state.session.Balanced []
  types : w.session.types.shapes ⊆ run.state.session.types.shapes
  others : ∀ id, id ∉ (exported (Change.made names file w.session.nextDecl changes)).map (·.id) →
    run.state.session.resolution id = w.session.resolution id
  kept : ∀ d ∈ exported (Change.made names file w.session.nextDecl changes),
    (d.finding w.session.analyzer).KeptBy run.state.session.types d
      (run.state.session.resolution d.id)
  log : run.state.session.log = w.session.log.extend (problems ++
    BuildTask.reportsOf w.session.analyzer r.state.session.exports r.spawned)
  errors : run.errors = [] ↔ r.outcome = .done ∧
    (∀ t ∈ r.spawned, t.ends w.session.analyzer w.toolchain.generator = .done) ∧
    ∀ d ∈ exported (Change.made names file w.session.nextDecl changes),
      ∀ call ∈ (d.finding w.session.analyzer).calls, w.toolchain.generator call = .done
  exports : run.state.session.exports =
    r.spawned.foldl BuildTask.exportsAfter r.state.session.exports
  still : run.state.session.still = r.state.session.still

/-- A cycle over one file is its rebuild and two levels of tasks after it. -/
theorem runGroup_rebuild (w : Workshop) (root : String) :
    runGroup groupName runTask BuildTask.depth [.rebuild root] w =
      (((GroupRun.level groupName runTask { state := w, waiting := [.rebuild root] }).level
        groupName runTask).level groupName runTask) := by
  have hdrain : runGroup groupName runTask BuildTask.depth [.rebuild root] w =
      GroupRun.drain groupName runTask 3 { state := w, waiting := [.rebuild root] } := rfl
  rw [hdrain, GroupRun.drain_succ, GroupRun.drain_succ, GroupRun.drain_succ, GroupRun.drain]

/-- The tasks after a rebuild leave what only a rebuild touches. -/
theorem runGroup_still (w : Workshop) (root : String) :
    (runGroup groupName runTask BuildTask.depth [.rebuild root] w).state.session.still =
      (w.rebuild root).state.session.still := by
  have hkeeps : GroupRun.Keeps runTask (fun t => t.isRebuild = false)
      fun v => v.session.still = (w.rebuild root).state.session.still :=
    fun task v htask hv => ⟨(runTask_still htask v).trans hv, runTask_spawned task v⟩
  rw [runGroup_rebuild]
  exact (hkeeps.level (hkeeps.level ⟨rfl, runTask_spawned (.rebuild root) w⟩)).1

/-- The first of two levels resolves what the rebuild has made, the second one delivers what was
found. -/
theorem compiled_of_rebuilt (hs : w.session.Settled)
    (h : Rebuilt w.session names file changes problems (w.rebuild root)) :
    Compiled w names file changes problems (w.rebuild root)
      (runGroup groupName runTask BuildTask.depth [.rebuild root] w) := by
  have hstill := runGroup_still w root
  rw [runGroup_rebuild] at hstill ⊢
  let r₁ : GroupRun Workshop BuildTask :=
    GroupRun.level groupName runTask { state := w, waiting := [.rebuild root] }
  let r₂ := r₁.level groupName runTask
  let r₃ := r₂.level groupName runTask
  have hstate : r₁.state = (w.rebuild root).state := rfl
  have hwaiting : r₁.waiting = (w.rebuild root).spawned := rfl
  have herrors : r₁.errors = ((w.rebuild root).outcome.error? groupName).toList := rfl
  have hanalyzer : r₁.state.session.analyzer = w.session.analyzer :=
    runTask_analyzer (.rebuild root) w
  have hgenerator : r₁.state.toolchain.generator = w.toolchain.generator :=
    runTask_generator (.rebuild root) w
  have hall₂ : DoAll { r₁ with waiting := [] } r₁.waiting r₂ r₂.waiting := level_doAll (h.ready hs)
  have hall₃ : DoAll { r₂ with waiting := [] } r₂.waiting r₃ r₃.waiting :=
    level_doAll (hall₂.follow.ready hall₂.balanced)
  have hmade : BuildTask.resolved r₁.waiting =
      exported (Change.made names file w.session.nextDecl changes) := by
    rw [hwaiting, h.spawned]
    exact Change.resolved_tasks
  change Compiled w names file changes problems (w.rebuild root) r₃
  change r₃.state.session.still = _ at hstill
  clear_value r₁ r₂ r₃
  have hanalyzer₂ := hall₂.analyzer.trans hanalyzer
  have hgenerator₂ := hall₂.generator.trans hgenerator
  have hfollow := hall₂.follow
  have hgrows₂ := hall₂.grows
  have hgrows₃ := hall₃.grows
  rw [hfollow.resolved_eq_nil] at hgrows₃
  dsimp only at hfollow hgrows₂ hgrows₃
  rw [hanalyzer, hmade] at hfollow
  rw [hstate, hmade] at hgrows₂
  refine ⟨hall₃.balanced, ?_, fun id hid => ?_, fun d hd => ?_, ?_, ?_, ?_, hstill⟩
  · rw [← h.types]
    exact List.Subset.trans hgrows₂.types hgrows₃.types
  · rw [hgrows₃.resolutions id List.not_mem_nil, hgrows₂.resolutions id hid,
      Session.resolution_congr h.resolutions]
  · rw [← hmade] at hd
    have hkept := hall₂.kept d hd
    dsimp only at hkept
    rw [hanalyzer] at hkept
    rw [hgrows₃.resolutions d.id List.not_mem_nil]
    exact hkept.grow hall₂.balanced.types hall₃.balanced.types hgrows₃.types
  · have hlog₂ := hall₂.log
    have hlog₃ := hall₃.log
    dsimp only at hlog₂ hlog₃
    rw [hanalyzer₂, (hfollow.silent _).1, DiagnosticLog.extend_nil] at hlog₃
    rw [hlog₃, hlog₂, hanalyzer, hstate, hwaiting, h.log, DiagnosticLog.extend_extend]
  · have herrors₂ := hall₂.errors
    have herrors₃ := hall₃.errors
    dsimp only at herrors₂ herrors₃
    rw [hanalyzer₂, hgenerator₂] at herrors₃
    rw [hanalyzer, hgenerator] at herrors₂
    rw [herrors₃, herrors₂, List.append_eq_nil_iff, List.append_eq_nil_iff, errorsOf_eq_nil,
      hfollow.errorsOf_eq_nil, herrors, Option.toList_eq_nil_iff, error?_eq_none, hwaiting,
      and_assoc]
  · have hexports₂ := hall₂.exports
    have hexports₃ := hall₃.exports
    dsimp only at hexports₂ hexports₃
    rw [hexports₃, (hfollow.silent _).2, hexports₂, hstate, hwaiting]

/-! ## What the tasks of a cycle leave -/

section

variable {run : GroupRun Workshop BuildTask}
  (h : Compiled w names file changes problems (w.rebuild root) run)
  (hr : Rebuilt w.session names file changes problems (w.rebuild root))
  (hs : w.session.Settled)
include h

theorem Compiled.analyzer : run.state.session.analyzer = w.session.analyzer :=
  (congrArg (fun s => s.analyzer) h.still).trans (runTask_analyzer (.rebuild root) w)

/-- What has its number from an earlier cycle is left as it was. -/
theorem Compiled.resolution_of_lt {id : DeclId} (hid : id < w.session.nextDecl) :
    run.state.session.resolution id = w.session.resolution id :=
  h.others id (Change.notMem_exported_of_lt hid)

include hs in
/-- Nothing is resolved under a number that is not given away. -/
theorem Compiled.unresolved {id : DeclId} (hid : w.session.nextDecl +
    (Change.made names file w.session.nextDecl changes).length ≤ id) :
    run.state.session.resolution id = .empty := by
  rw [h.others id (Change.notMem_exported_of_le hid)]
  exact hs.unresolved id (Nat.le_trans (Nat.le_add_right ..) hid)

include hr

theorem Compiled.table : run.state.session.table =
    (Change.made names file w.session.nextDecl changes).foldl DeclTable.enter w.session.table :=
  (congrArg (fun s => s.table) h.still).trans hr.table

theorem Compiled.nextDecl : run.state.session.nextDecl =
    w.session.nextDecl + (Change.made names file w.session.nextDecl changes).length :=
  (congrArg (fun s => s.nextDecl) h.still).trans hr.nextDecl

include hs

theorem Compiled.numbered : ∀ d ∈ run.state.session.table.decls,
    d.id < run.state.session.nextDecl := by
  intro d hd
  rw [h.table hr] at hd
  rw [h.nextDecl hr]
  rcases DeclTable.mem_foldl_enter hd with hd | hd
  · exact Nat.lt_of_lt_of_le (hs.numbered d hd) (Nat.le_add_right ..)
  · exact Change.id_made_lt d hd

/-- A symbol is in use since an earlier cycle, or one of the new declarations has claimed it. -/
theorem Compiled.claimed : ∀ symbol ∈ run.state.session.exports.inUse,
    symbol ∈ run.state.session.table.decls.map (·.symbol) := by
  intro symbol hsymbol
  rw [h.table hr, DeclTable.mem_symbols_foldl_enter]
  rw [h.exports] at hsymbol
  rcases ExportTable.mem_inUse_foldl hsymbol with hused | hclaimed
  · left
    apply hs.claimed
    unfold ExportTable.inUse at hused ⊢
    rwa [hr.entries] at hused
  · right
    rw [hr.spawned, Change.claimed_tasks] at hclaimed
    exact (List.filter_sublist.map _).subset hclaimed

/-- What earlier cycles have found is still kept, and so is what this one has found. -/
theorem Compiled.kept_live : ∀ d ∈ run.state.session.table.decls, d.isExport →
    (d.finding w.session.analyzer).KeptBy run.state.session.types d
      (run.state.session.resolution d.id) := by
  intro d hd hexport
  rw [h.table hr] at hd
  rcases DeclTable.mem_foldl_enter hd with hd | hd
  · rw [h.resolution_of_lt (hs.numbered d hd)]
    exact (hs.kept d hd hexport).grow hs.balanced.types h.balanced.types h.types
  · exact h.kept d (mem_exported.2 ⟨hd, hexport⟩)

end

/-! ## From cycle to cycle -/

theorem compile_session (w : Workshop) (paths : List String) :
    ∃ phase, (w.compile paths).1.session =
      { (runGroup groupName runTask BuildTask.depth (paths.map .rebuild)
          w).state.session.forget with phase } := by
  unfold compile
  dsimp only
  split
  · exact ⟨.linking, rfl⟩
  · exact ⟨_, rfl⟩

/-- The tasks of a cycle leave a settled session, but for the problems they note. -/
theorem settled_compile (hs : w.session.Settled) (root : String) :
    { (w.compile [root]).1.session with log := {} }.Settled := by
  obtain ⟨names, file, changes, problems, hrebuilt, -⟩ := exists_rebuilt hs.nodup root
  have hcompiled := compiled_of_rebuilt hs hrebuilt
  obtain ⟨phase, hsession⟩ := compile_session w [root]
  rw [List.map_singleton] at hsession
  rw [hsession]
  generalize runGroup groupName runTask BuildTask.depth [.rebuild root] w = run at hcompiled
  obtain ⟨hbalanced, hshapes⟩ := hcompiled.balanced.forget
  refine ⟨⟨hbalanced.types, hbalanced.keys⟩, rfl, fun id hid => ?_,
    hcompiled.numbered hrebuilt hs, ?_, hcompiled.claimed hrebuilt hs, fun d hd hexport => ?_⟩
  · change run.state.session.nextDecl ≤ id at hid
    change run.state.session.forget.resolution id = .empty
    rw [hcompiled.nextDecl hrebuilt] at hid
    rw [Session.resolution_forget, hcompiled.unresolved hs hid, ite_self]
  · change (run.state.session.table.decls.map (·.symbol)).Nodup
    rw [hcompiled.table hrebuilt]
    exact DeclTable.nodup_foldl_enter hs.nodup
  · change d ∈ run.state.session.table.decls at hd
    change (d.finding run.state.session.analyzer).KeptBy run.state.session.forget.types d
      (run.state.session.forget.resolution d.id)
    rw [hcompiled.analyzer, Session.resolution_forget_of_live hd]
    have hkept := hcompiled.kept_live hrebuilt hs d hd hexport
    exact hkept.grow hcompiled.balanced.types hbalanced.types fun _ hx => hshapes ▸ hx

/-- A link and the end of a cycle leave a session settled. -/
theorem settled_finish (hs : { w.session with log := {} }.Settled)
    (compiled : Except BuildError Nat) : (w.finish compiled).1.session.Settled := by
  obtain ⟨s, hlinked, hfinish⟩ := finish_session w compiled
  have htypes : s.types = w.session.types := congrArg (fun s => s.types) hlinked
  have hresolutions : s.resolutions = w.session.resolutions :=
    congrArg (fun s => s.resolutions) hlinked
  have hlinkSet : s.linkSet = w.session.linkSet := congrArg (fun s => s.linkSet) hlinked
  have htable : s.table = w.session.table := congrArg (fun s => s.table) hlinked
  have hexports : s.exports = w.session.exports := congrArg (fun s => s.exports) hlinked
  have hnextDecl : s.nextDecl = w.session.nextDecl := congrArg (fun s => s.nextDecl) hlinked
  have hanalyzer : s.analyzer = w.session.analyzer := congrArg (fun s => s.analyzer) hlinked
  have hbalanced : s.Balanced [] := hs.balanced.congr htypes hresolutions hlinkSet
  have hresolution (id : DeclId) : s.resolution id = w.session.resolution id :=
    Session.resolution_congr hresolutions id
  rw [hfinish]
  refine ⟨⟨hbalanced.types.reclaim, hbalanced.keys⟩, rfl, fun id hid => ?_, fun d hd => ?_, ?_,
    fun symbol hsymbol => ?_, fun d hd hexport => ?_⟩
  · change s.resolution id = .empty
    rw [hresolution]
    refine hs.unresolved id ?_
    rw [← hnextDecl]
    exact hid
  · change d ∈ s.table.decls at hd
    change d.id < s.nextDecl
    rw [htable] at hd
    rw [hnextDecl]
    exact hs.numbered d hd
  · change (s.table.decls.map (·.symbol)).Nodup
    rw [htable]
    exact hs.nodup
  · change symbol ∈ s.exports.inUse at hsymbol
    change symbol ∈ s.table.decls.map (·.symbol)
    rw [hexports] at hsymbol
    rw [htable]
    exact hs.claimed symbol hsymbol
  · change d ∈ s.table.decls at hd
    change (d.finding s.analyzer).KeptBy s.types.reclaim d (s.resolution d.id)
    rw [htable] at hd
    have hkept := hs.kept d hd hexport
    change (d.finding w.session.analyzer).KeptBy w.session.types d
      (w.session.resolution d.id) at hkept
    rw [hanalyzer]
    rw [← hresolution, ← htypes] at hkept
    refine hkept.mono fun id hid => ?_
    exact hbalanced.types.denote?_reclaim (Session.mem_held_of_resolution hid)

/-- A cycle that rebuilds one file leads from one settled state to another. -/
theorem settled_runCycle (hs : w.session.Settled) (root : String) :
    (w.runCycle [root]).1.session.Settled :=
  settled_finish (settled_compile hs root) _

end Workshop

end IncrementalBuild
