import IncrementalBuild.Proofs.Session.Steps

/-!
# What the tasks of a level do together

The tasks that wait are run one after the other. What they report, how they end, which
declarations they resolve and what they spawn adds up, and the session is ready for the tasks
of the next level, which generate code and link.
-/

set_option autoImplicit false

namespace IncrementalBuild

namespace BuildTask

/-- The problems tasks report one after the other. -/
def reportsOf (analyzer : Analyzer) : ExportTable → List BuildTask → List Diagnostic
  | _, [] => []
  | exports, t :: ts =>
    t.reports analyzer exports ++ reportsOf analyzer (t.exportsAfter exports) ts

/-- The errors with which tasks end. -/
def errorsOf (analyzer : Analyzer) (generator : CodeGenerator) (tasks : List BuildTask) :
    List BuildError :=
  tasks.flatMap fun t => ((t.ends analyzer generator).error? Workshop.groupName).toList

/-- The declarations that tasks resolve. -/
def resolved (tasks : List BuildTask) : List Decl := tasks.filterMap resolves?

theorem resolved_cons (t : BuildTask) (tasks : List BuildTask) :
    resolved (t :: tasks) = t.resolves?.toList ++ resolved tasks := by
  unfold resolved
  rw [List.filterMap_cons]
  cases t.resolves? <;> rfl

theorem mem_resolved {tasks : List BuildTask} {d : Decl} :
    d ∈ resolved tasks ↔ .resolve d ∈ tasks := by
  unfold resolved
  rw [List.mem_filterMap]
  constructor
  · rintro ⟨t, ht, hd⟩
    cases t with
    | resolve d' =>
      cases hd
      exact ht
    | _ => cases hd
  · exact fun hd => ⟨_, hd, rfl⟩

end BuildTask

/-- What keeps a finding keeps it for as long as the types it holds denote what they did. -/
theorem Finding.KeptBy.mono {finding : Finding} {types types' : TypeStore} {d : Decl}
    {m : Memo Resolution} (h : finding.KeptBy types d m)
    (hsame : ∀ id ∈ m.held, types'.denote? id = types.denote? id) :
    finding.KeptBy types' d m := by
  cases finding with
  | unreadable problems => exact h
  | rejected problem => exact h
  | crashed message => exact h
  | prototype type =>
    obtain ⟨id, hm, hid⟩ := h
    refine ⟨id, hm, ?_⟩
    rw [hsame id, hid]
    rw [hm]
    exact List.mem_cons_self ..
  | function type call =>
    obtain ⟨id, hm, hid⟩ := h
    refine ⟨id, hm, ?_⟩
    rw [hsame id, hid]
    rw [hm]
    exact List.mem_cons_self ..

theorem Finding.KeptBy.held_resident {finding : Finding} {types : TypeStore} {d : Decl}
    {m : Memo Resolution} (h : finding.KeptBy types d m) : ∀ id ∈ m.held, id ∈ types.ids := by
  cases finding with
  | unreadable problems =>
    rw [show m = .resolved .failed from h]
    simp [Memo.held, Memo.peek, Resolution.held]
  | rejected problem =>
    rw [show m = .resolved .failed from h]
    simp [Memo.held, Memo.peek, Resolution.held]
  | crashed message =>
    rw [show m = .empty from h]
    simp [Memo.held, Memo.peek]
  | prototype type =>
    obtain ⟨id, hm, hid⟩ := h
    rw [hm]
    simpa [Memo.held, Memo.peek, Resolution.held] using TypeStore.mem_ids_of_denote? hid
  | function type call =>
    obtain ⟨id, hm, hid⟩ := h
    rw [hm]
    simpa [Memo.held, Memo.peek, Resolution.held, Decl.value] using
      TypeStore.mem_ids_of_denote? hid

/-- What keeps a finding keeps it in any sound store that has all the types there were. -/
theorem Finding.KeptBy.grow {finding : Finding} {types types' : TypeStore}
    {held held' : List TypeId} {d : Decl} {m : Memo Resolution} (h : finding.KeptBy types d m)
    (hsound : types.Sound held) (hsound' : types'.Sound held')
    (hsub : types.shapes ⊆ types'.shapes) : finding.KeptBy types' d m :=
  h.mono fun id hid =>
    hsound.denote?_mono hsound' (fun _ hx => hsub hx) (h.held_resident id hid)

theorem DiagnosticLog.extend_extend (log : DiagnosticLog) (ds ds' : List Diagnostic) :
    (log.extend ds).extend ds' = log.extend (ds ++ ds') := by
  rw [extend, extend, extend, List.append_assoc]

theorem Session.GrowsTo.trans {s s' s'' : Session} {touched touched' : List DeclId}
    (h : s.GrowsTo touched s') (h' : s'.GrowsTo touched' s'') :
    s.GrowsTo (touched ++ touched') s'' := by
  refine ⟨List.Subset.trans h.types h'.types, fun id hid => ?_⟩
  rw [List.mem_append, not_or] at hid
  exact (h'.resolutions id hid.2).trans (h.resolutions id hid.1)

namespace Workshop

variable {w : Workshop} {task : BuildTask} {tasks : List BuildTask}

theorem produce_toolchain (w : Workshop) (d : Decl) :
    (w.produce d).state.toolchain = w.toolchain := by
  unfold produce
  dsimp only
  split
  · rfl
  · split
    · unfold resolveBody
      dsimp only
      split <;> rfl
    · rfl

theorem rebuild_toolchain (w : Workshop) (path : String) :
    (w.rebuild path).state.toolchain = w.toolchain := by
  rcases rebuild_cases w path with ⟨outcome, -, hstate⟩ | ⟨problem, hstate⟩ |
    ⟨text, -, ⟨e, -, hstate⟩ | ⟨-, hstate⟩⟩
  · rw [hstate]
  · rw [hstate]
    rfl
  · rw [hstate]
    rfl
  · rw [hstate, takeOver_eq]
    rfl

/-- No task changes the generator. -/
theorem runTask_generator (task : BuildTask) (w : Workshop) :
    (runTask task w).state.toolchain.generator = w.toolchain.generator := by
  cases task with
  | rebuild path => exact congrArg Toolchain.generator (rebuild_toolchain w path)
  | claim ticket d => rfl
  | resolve d =>
    refine congrArg Toolchain.generator ?_
    unfold runTask resolve
    dsimp only
    split
    · exact produce_toolchain ..
    · rfl
  | runComptime file block =>
    refine congrArg Toolchain.generator ?_
    unfold runTask runComptime
    dsimp only
    split <;> rfl
  | generate call =>
    unfold runTask generate Toolchain.generate
    dsimp only
    split <;> rfl
  | link f => rfl

theorem runTask_analyzer (task : BuildTask) (w : Workshop) :
    (runTask task w).state.session.analyzer = w.session.analyzer := by
  have hbase := congrArg Session.analyzer (runTask_base task w)
  exact hbase

/-- Tasks that follow from the resolution of declarations: the code of each function that was
found is generated, and functions whose types are there are linked. -/
structure Follow (analyzer : Analyzer) (decls : List Decl) (s : Session) (tasks : List BuildTask) :
    Prop where
  only : ∀ t ∈ tasks, (∃ d ∈ decls, ∃ call ∈ (d.finding analyzer).calls, t = .generate call) ∨
    ∃ f, t = .link f ∧ f.type ∈ s.types.ids
  all : ∀ d ∈ decls, ∀ call ∈ (d.finding analyzer).calls, .generate call ∈ tasks

theorem Does.follow (h : Does w task tasks) :
    Follow w.session.analyzer task.resolves?.toList (runTask task w).state.session
      (runTask task w).spawned := by
  cases task with
  | resolve d =>
    have hkept := h.kept d rfl
    have hspawned := h.spawned d rfl
    rw [hspawned]
    cases hfinding : d.finding w.session.analyzer with
    | function type call =>
      rw [hfinding] at hkept
      obtain ⟨id, hmemo, hid⟩ := hkept
      rw [hmemo]
      refine ⟨fun t ht => ?_, fun d' hd' call' hcall' => ?_⟩
      · rcases List.mem_cons.1 ht with rfl | ht
        · left
          refine ⟨d, by simp [BuildTask.resolves?], call, ?_, rfl⟩
          rw [hfinding]
          exact List.mem_singleton_self _
        · right
          rw [List.mem_singleton] at ht
          exact ⟨_, ht, TypeStore.mem_ids_of_denote? hid⟩
      · obtain rfl : d' = d := by simpa [BuildTask.resolves?] using hd'
        rw [hfinding, Finding.calls, List.mem_singleton] at hcall'
        rw [hcall']
        exact List.mem_cons_self ..
    | _ =>
      refine ⟨by simp [Finding.tasks], fun d' hd' call' hcall' => ?_⟩
      obtain rfl : d' = d := by simpa [BuildTask.resolves?] using hd'
      rw [hfinding] at hcall'
      cases hcall'
  | _ =>
    rw [h.spawnedElse fun _ heq => by cases heq]
    exact ⟨by simp, by simp [BuildTask.resolves?]⟩

theorem Follow.resolved_eq_nil {analyzer : Analyzer} {decls : List Decl} {s : Session}
    (h : Follow analyzer decls s tasks) : BuildTask.resolved tasks = [] := by
  rw [List.eq_nil_iff_forall_not_mem]
  intro d hd
  rcases h.only _ (BuildTask.mem_resolved.1 hd) with ⟨_, _, _, _, heq⟩ | ⟨_, heq, _⟩
  · cases heq
  · cases heq

theorem Follow.ready {analyzer : Analyzer} {decls : List Decl} {s : Session}
    (h : Follow analyzer decls s tasks) (hbalanced : s.Balanced []) : s.Ready tasks := by
  have hnone := h.resolved_eq_nil
  refine ⟨hbalanced, fun d hd => ?_, ?_, fun f hf => ?_, fun t ht => ?_⟩
  · rw [← BuildTask.mem_resolved, hnone] at hd
    cases hd
  · change ((BuildTask.resolved tasks).map (·.id)).Nodup
    rw [hnone]
    exact List.nodup_nil
  · rcases h.only _ hf with ⟨_, _, _, _, heq⟩ | ⟨f', heq, hf'⟩
    · cases heq
    · cases heq
      exact hf'
  · rcases h.only _ ht with ⟨_, _, _, _, rfl⟩ | ⟨_, rfl, _⟩
    · rfl
    · rfl

theorem Follow.append {analyzer : Analyzer} {decls decls' : List Decl} {s s' : Session}
    {tasks' : List BuildTask} (h : Follow analyzer decls s tasks)
    (h' : Follow analyzer decls' s' tasks') (hgrows : s.types.shapes ⊆ s'.types.shapes) :
    Follow analyzer (decls ++ decls') s' (tasks ++ tasks') := by
  refine ⟨fun t ht => ?_, fun d hd call hcall => ?_⟩
  · rcases List.mem_append.1 ht with ht | ht
    · rcases h.only t ht with ⟨d, hd, call, hcall, heq⟩ | ⟨f, heq, hf⟩
      · exact .inl ⟨d, List.mem_append_left _ hd, call, hcall, heq⟩
      · exact .inr ⟨f, heq, Session.mem_ids_of_grows hgrows hf⟩
    · rcases h'.only t ht with ⟨d, hd, call, hcall, heq⟩ | hlink
      · exact .inl ⟨d, List.mem_append_right _ hd, call, hcall, heq⟩
      · exact .inr hlink
  · rcases List.mem_append.1 hd with hd | hd
    · exact List.mem_append_left _ (h.all d hd call hcall)
    · exact List.mem_append_right _ (h'.all d hd call hcall)

/-- What the tasks of a level do together: `new` is what they spawn. -/
structure DoAll (r : GroupRun Workshop BuildTask) (tasks : List BuildTask)
    (r' : GroupRun Workshop BuildTask) (new : List BuildTask) : Prop where
  balanced : r'.state.session.Balanced []
  grows : r.state.session.GrowsTo ((BuildTask.resolved tasks).map (·.id)) r'.state.session
  kept : ∀ d ∈ BuildTask.resolved tasks, (d.finding r.state.session.analyzer).KeptBy
    r'.state.session.types d (r'.state.session.resolution d.id)
  log : r'.state.session.log = r.state.session.log.extend
    (BuildTask.reportsOf r.state.session.analyzer r.state.session.exports tasks)
  errors : r'.errors = r.errors ++
    BuildTask.errorsOf r.state.session.analyzer r.state.toolchain.generator tasks
  exports : r'.state.session.exports =
    tasks.foldl BuildTask.exportsAfter r.state.session.exports
  waiting : r'.waiting = r.waiting ++ new
  follow : Follow r.state.session.analyzer (BuildTask.resolved tasks) r'.state.session new
  analyzer : r'.state.session.analyzer = r.state.session.analyzer
  generator : r'.state.toolchain.generator = r.state.toolchain.generator

/-- The tasks of a level, each in its turn, do what they have to. -/
theorem doAll_of_ready {r : GroupRun Workshop BuildTask} (h : r.state.session.Ready tasks) :
    ∃ new, DoAll r tasks (tasks.foldl (GroupRun.step groupName runTask) r) new := by
  induction tasks generalizing r with
  | nil =>
    refine ⟨[], h.balanced, ⟨List.Subset.refl _, fun _ _ => rfl⟩, ?_, ?_, ?_, rfl, ?_, ?_, rfl, rfl⟩
    · exact fun d hd => absurd hd (List.not_mem_nil)
    · exact (DiagnosticLog.extend_nil _).symm
    · exact (List.append_nil _).symm
    · exact (List.append_nil _).symm
    · exact ⟨fun t ht => absurd ht List.not_mem_nil, fun d hd => absurd hd List.not_mem_nil⟩
  | cons task tasks ih =>
    have hdoes := does_of_ready h
    let r₁ := r.step groupName runTask task
    have hready : r₁.state.session.Ready tasks := hdoes.ready
    obtain ⟨new, hall⟩ := ih hready
    have hanalyzer : r₁.state.session.analyzer = r.state.session.analyzer :=
      runTask_analyzer task r.state
    have hgenerator : r₁.state.toolchain.generator = r.state.toolchain.generator :=
      runTask_generator task r.state
    have hexports : r₁.state.session.exports = task.exportsAfter r.state.session.exports :=
      hdoes.exports
    rw [List.foldl_cons]
    refine ⟨(runTask task r.state).spawned ++ new, hall.balanced, ?_, fun d hd => ?_, ?_, ?_, ?_,
      ?_, ?_, hall.analyzer.trans hanalyzer, hall.generator.trans hgenerator⟩
    · rw [BuildTask.resolved_cons, List.map_append]
      exact hdoes.grows.trans hall.grows
    · rw [BuildTask.resolved_cons, List.mem_append] at hd
      rcases hd with hd | hd
      · -- no other task of the level resolves this declaration
        obtain rfl : task = .resolve d := by
          cases task with
          | resolve d' => rw [show d = d' by simpa [BuildTask.resolves?] using hd]
          | _ => cases hd
        have hkept := hdoes.kept d rfl
        have hother : d.id ∉ (BuildTask.resolved tasks).map (·.id) := by
          have hdistinct := h.distinct
          rw [List.filterMap_cons, BuildTask.resolves?, List.map_cons, List.nodup_cons] at hdistinct
          exact hdistinct.1
        rw [hall.grows.resolutions d.id hother]
        exact hkept.grow hdoes.ready.balanced.types hall.balanced.types hall.grows.types
      · have hkept := hall.kept d hd
        rwa [hanalyzer] at hkept
    · rw [hall.log, hanalyzer, hexports, BuildTask.reportsOf, ← DiagnosticLog.extend_extend]
      exact congrArg (DiagnosticLog.extend · _) hdoes.log
    · have herrors : r₁.errors = r.errors ++ ((task.ends r.state.session.analyzer
          r.state.toolchain.generator).error? groupName).toList := by
        rw [← hdoes.ends]
        rfl
      rw [hall.errors, herrors, hanalyzer, hgenerator, List.append_assoc]
      rfl
    · rw [hall.exports, hexports, List.foldl_cons]
    · have hwaiting : r₁.waiting = r.waiting ++ (runTask task r.state).spawned := rfl
      rw [hall.waiting, hwaiting, List.append_assoc]
    · have hfollow := hall.follow
      rw [hanalyzer] at hfollow
      rw [BuildTask.resolved_cons]
      exact hdoes.follow.append hfollow hall.grows.types

end Workshop

end IncrementalBuild
