import IncrementalBuild.Proofs.Session.Table
import IncrementalBuild.Proofs.Task.Group
import IncrementalBuild.Session.Cycle

/-!
# What the tasks of a cycle leave alone

Of all tasks of a cycle only the rebuild of a file changes the live declarations, and no
task spawns another rebuild. So the table a cycle ends with is the one its rebuild left. What
a session was made with, and what it watches, no task changes at all.
-/

set_option autoImplicit false

namespace IncrementalBuild

/-- The session without what resolving a declaration changes. -/
def Session.frame (s : Session) : Session :=
  { s with log := {}, types := .initial, resolutions := [], journal := [], told := [] }

/-- The session without what the later tasks of a cycle change: what is left is changed by
rebuilds alone. -/
def Session.still (s : Session) : Session := { s.frame with exports := {}, linkSet := {} }

theorem Session.still_eq_of_frame {s s' : Session} (h : s.frame = s'.frame) : s.still = s'.still := by
  unfold still
  rw [h]

/-- The session without what a link changes. -/
def Session.unlinked (s : Session) : Session :=
  { s with plan := {}, hasTempDir := false, journal := [] }

namespace Session

variable (s : Session)

@[simp] theorem frame_report (d : Diagnostic) : (s.report d).frame = s.frame := rfl

@[simp] theorem frame_note (e : JournalEntry) : (s.note e).frame = s.frame := rfl

@[simp] theorem frame_tell (lines : List String) : (s.tell lines).frame = s.frame := rfl

@[simp] theorem frame_types (types : TypeStore) : { s with types }.frame = s.frame := rfl

@[simp] theorem frame_setResolution (id : DeclId) (m : Memo Resolution) :
    (s.setResolution id m).frame = s.frame := rfl

@[simp] theorem frame_releaseTypes (ids : List TypeId) :
    (Workshop.releaseTypes s ids).frame = s.frame := rfl

@[simp] theorem frame_settle (d : Decl) (r : Resolution) :
    (Workshop.settle s d r).frame = s.frame := rfl

end Session

/-- The session without what the tasks of a cycle change: what it was made with, how far it
is, and what it watches. -/
def Session.base (s : Session) : Session :=
  { s.still with names := .empty, table := {}, nextDecl := 0 }

theorem Session.base_eq_of_still {s s' : Session} (h : s.still = s'.still) : s.base = s'.base := by
  unfold base
  rw [h]

/-- A session was made like another, is as far and watches the same. -/
structure Session.InStepWith (s s' : Session) : Prop where
  settings : s.settings = s'.settings
  analyzer : s.analyzer = s'.analyzer
  plan : s.plan = s'.plan
  isStarted : s.isStarted = s'.isStarted
  cycle : s.cycle = s'.cycle
  watcher : s.watcher = s'.watcher
  watched : s.watched = s'.watched

theorem Session.inStepWith_of_base {s s' : Session} {phase : SessionPhase}
    (h : s.base = { s'.base with phase }) : s.InStepWith s' where
  settings := congrArg (fun s => s.settings) h
  analyzer := congrArg (fun s => s.analyzer) h
  plan := congrArg (fun s => s.plan) h
  isStarted := congrArg (fun s => s.isStarted) h
  cycle := congrArg (fun s => s.cycle) h
  watcher := congrArg (fun s => s.watcher) h
  watched := congrArg (fun s => s.watched) h

/-- Whether a task is the rebuild of a file. -/
def BuildTask.isRebuild : BuildTask → Bool
  | .rebuild _ => true
  | _ => false

namespace Workshop

variable {w : Workshop}

theorem resolveBody_frame (w : Workshop) (d : Decl) (params : List TypeId) (result type : TypeId)
    (body : Span) : (w.resolveBody d params result type body).state.session.frame =
      w.session.frame := by
  unfold resolveBody
  dsimp only
  split
  · simp only [Session.frame_setResolution, Session.frame_releaseTypes, Session.frame_note]
  · simp only [Session.frame_settle, Session.frame_report, Session.frame_releaseTypes,
      Session.frame_note]
  · split <;> simp only [Session.frame_settle, Session.frame_types, Session.frame_tell,
      Session.frame_releaseTypes, Session.frame_note]

theorem produce_frame (w : Workshop) (d : Decl) :
    (w.produce d).state.session.frame = w.session.frame := by
  unfold produce
  dsimp only
  split
  · simp only [Session.frame_settle]
    rfl
  · split
    · rw [resolveBody_frame]
      rfl
    · simp only [Session.frame_settle, Session.frame_releaseTypes]
      rfl

/-- Resolving a declaration changes the problems, the types, the resolutions and what is told of
the work, and nothing else. -/
theorem resolve_frame (w : Workshop) (d : Decl) :
    (w.resolve d).state.session.frame = w.session.frame := by
  unfold resolve
  split
  · exact produce_frame ..
  · rfl

/-- Only the rebuild of a file changes what the later tasks of a cycle leave alone. -/
theorem runTask_still {task : BuildTask} (h : task.isRebuild = false) (w : Workshop) :
    (runTask task w).state.session.still = w.session.still := by
  cases task with
  | rebuild path => cases h
  | claim ticket d =>
    unfold runTask claim
    dsimp only
    split <;> rfl
  | resolve d => exact Session.still_eq_of_frame (resolve_frame w d)
  | runComptime file block =>
    unfold runTask runComptime
    dsimp only
    split <;> rfl
  | generate call => rfl
  | link f => rfl

theorem enter_base (s : Session) (d : Decl) : (enter s d).base = s.base := by
  unfold enter
  split <;> rfl

theorem exportTasks_base (s : Session) (d : Decl) : (exportTasks s d).2.base = s.base := by
  unfold exportTasks
  split <;> rfl

theorem applyChange_base (file : SourceFile) (before : Session × List BuildTask) (c : Change) :
    (applyChange file before c).1.base = before.1.base := by
  cases c with
  | runComptime block => rfl
  | reportNameless f => rfl
  | add symbol f =>
    rw [applyChange]
    dsimp only
    rw [enter_base, exportTasks_base]
    rfl

theorem takeOver_base (w : Workshop) (file : SourceFile) :
    (takeOver w file).state.session.base = w.session.base := by
  have hfold : ∀ (changes : List Change) (before : Session × List BuildTask),
      (changes.foldl (applyChange file) before).1.base = before.1.base := by
    intro changes
    induction changes with
    | nil => exact fun _ => rfl
    | cons c changes ih =>
      intro before
      rw [List.foldl_cons, ih, applyChange_base]
  rw [takeOver_eq]
  dsimp only
  rw [hfold]
  unfold shown
  dsimp only
  split <;> rfl

theorem rebuild_base (w : Workshop) (path : String) :
    (w.rebuild path).state.session.base = w.session.base := by
  rcases rebuild_cases w path with ⟨outcome, -, hstate⟩ | ⟨problem, hstate⟩ |
    ⟨text, -, ⟨e, -, hstate⟩ | ⟨-, hstate⟩⟩
  · rw [hstate]
  · rw [hstate]
    rfl
  · rw [hstate]
    rfl
  · rw [hstate, takeOver_base]
    rfl

/-- No task changes what a session was made with, how far it is or what it watches. -/
theorem runTask_base (task : BuildTask) (w : Workshop) :
    (runTask task w).state.session.base = w.session.base := by
  cases htask : task.isRebuild with
  | false => exact Session.base_eq_of_still (runTask_still htask w)
  | true =>
    cases task with
    | rebuild path => exact rebuild_base w path
    | _ => cases htask

/-! ## What tasks spawn -/

theorem exportTasks_spawned (s : Session) (d : Decl) :
    ∀ t ∈ (exportTasks s d).1, t.isRebuild = false := by
  unfold exportTasks
  split <;> simp [BuildTask.isRebuild]

theorem applyChange_spawned {file : SourceFile} {before : Session × List BuildTask} {c : Change}
    (h : ∀ t ∈ before.2, t.isRebuild = false) :
    ∀ t ∈ (applyChange file before c).2, t.isRebuild = false := by
  have hold {more : List BuildTask} (hmore : ∀ t ∈ more, t.isRebuild = false) :
      ∀ t ∈ before.2 ++ more, t.isRebuild = false := by
    intro t ht
    rcases List.mem_append.1 ht with ht | ht
    · exact h t ht
    · exact hmore t ht
  cases c with
  | runComptime block => exact hold (by simp [BuildTask.isRebuild])
  | reportNameless f => exact h
  | add symbol f => exact hold (exportTasks_spawned _ _)

theorem takeOver_spawned (w : Workshop) (file : SourceFile) :
    ∀ t ∈ (takeOver w file).spawned, t.isRebuild = false := by
  have hfold : ∀ (changes : List Change) (before : Session × List BuildTask),
      (∀ t ∈ before.2, t.isRebuild = false) →
      ∀ t ∈ (changes.foldl (applyChange file) before).2, t.isRebuild = false := by
    intro changes
    induction changes with
    | nil => exact fun _ h => h
    | cons c changes ih => exact fun before h => ih _ (applyChange_spawned h)
  rw [takeOver_eq]
  exact hfold _ _ (by simp)

theorem produce_spawned (w : Workshop) (d : Decl) :
    ∀ t ∈ (w.produce d).spawned, t.isRebuild = false := by
  unfold produce
  dsimp only
  split
  · simp
  · split
    · unfold resolveBody
      dsimp only
      split <;> simp [BuildTask.isRebuild]
    · simp

/-- No task spawns the rebuild of a file. -/
theorem runTask_spawned (task : BuildTask) (w : Workshop) :
    ∀ t ∈ (runTask task w).spawned, t.isRebuild = false := by
  cases task with
  | rebuild path =>
    change ∀ t ∈ (w.rebuild path).spawned, t.isRebuild = false
    unfold rebuild
    split
    · simp
    · split
      · simp
      · simp
      · unfold takeSource
        dsimp only
        split
        · simp
        · exact takeOver_spawned _ _
  | claim ticket d => simp [runTask, claim]
  | resolve d =>
    unfold runTask resolve
    dsimp only
    split
    · exact produce_spawned _ d
    · simp
  | runComptime file block =>
    unfold runTask runComptime
    dsimp only
    split <;> simp
  | generate call => simp [runTask, generate]
  | link f => simp [runTask, enterLinkSet]

/-! ## Whole cycles -/

/-- After the file of a cycle was rebuilt, the live declarations stay. -/
theorem compile_table (w : Workshop) (path : String) :
    (w.compile [path]).1.session.table = (w.rebuild path).state.session.table := by
  have hkeeps : GroupRun.Keeps runTask (fun t => t.isRebuild = false)
      fun v => v.session.table = (w.rebuild path).state.session.table := by
    intro task v htask hv
    refine ⟨?_, runTask_spawned task v⟩
    have hstill := congrArg Session.table (runTask_still htask v)
    exact hstill.trans hv
  have hrun : runGroup groupName runTask BuildTask.depth [.rebuild path] w =
      GroupRun.drain groupName runTask 2
        (GroupRun.level groupName runTask { state := w, waiting := [.rebuild path] }) := rfl
  have hgroup : (runGroup groupName runTask BuildTask.depth [.rebuild path] w).state.session.table =
      (w.rebuild path).state.session.table := by
    rw [hrun]
    exact (hkeeps.drain 2 ⟨rfl, runTask_spawned (.rebuild path) w⟩).1
  unfold compile
  dsimp only
  rw [List.map_singleton]
  split <;> exact hgroup

/-- The tasks of a cycle change nothing but the phase of what a session was made with, how far
it is and what it watches. -/
theorem compile_base (w : Workshop) (paths : List String) :
    ∃ phase, (w.compile paths).1.session.base = { w.session.base with phase } := by
  have hkeeps : GroupRun.Keeps runTask (fun _ => True)
      fun v => v.session.base = w.session.base := by
    intro task v _ hv
    exact ⟨(runTask_base task v).trans hv, fun _ _ => trivial⟩
  have hgroup : (runGroup groupName runTask BuildTask.depth (paths.map .rebuild)
      w).state.session.base = w.session.base := hkeeps.runGroup (fun _ _ => trivial) rfl
  unfold compile
  dsimp only
  split
  · refine ⟨.linking, ?_⟩
    rw [← hgroup]
    rfl
  · refine ⟨w.session.phase, ?_⟩
    exact hgroup

theorem compile_inStepWith (w : Workshop) (paths : List String) :
    (w.compile paths).1.session.InStepWith w.session := by
  obtain ⟨_, hbase⟩ := compile_base w paths
  exact Session.inStepWith_of_base hbase

theorem linkInput_session (w : Workshop) : w.linkInput.2.session = w.session := by
  unfold linkInput
  dsimp only
  split <;> rfl

theorem useLinker_session (w : Workshop) : w.useLinker.2.session = w.session := by
  unfold useLinker
  split
  · rfl
  · split
    · exact linkInput_session w
    · rfl

theorem decideLink_unlinked (w : Workshop) :
    w.decideLink.2.session.unlinked = w.session.unlinked := by
  unfold decideLink
  split
  · rw [useLinker_session]
  · dsimp only
    split
    · rfl
    · rw [useLinker_session]
      rfl

theorem writeCommand_unlinked (w : Workshop) :
    w.writeCommand.2.session.unlinked = w.session.unlinked := by
  have hinput := congrArg Session.unlinked (linkInput_session w)
  unfold writeCommand
  split
  · dsimp only
    split
    · exact hinput
    · exact hinput
  · rfl

/-- A link changes no more of a session than its plan, its journal and whether it has a
temporary directory. -/
theorem link_unlinked (w : Workshop) (cycle : Nat) :
    (w.link cycle).2.session.unlinked = w.session.unlinked := by
  unfold link
  extract_lets w'
  have hcommand : w'.writeCommand.2.session.unlinked = w.session.unlinked :=
    writeCommand_unlinked w'
  split
  · rename_i hwrite
    rwa [hwrite] at hcommand
  · rename_i v hwrite
    rw [hwrite] at hcommand
    exact (decideLink_unlinked v).trans hcommand

theorem decideLink_journal (w : Workshop) :
    w.decideLink.2.session.journal = w.session.journal := by
  unfold decideLink
  split
  · rw [useLinker_session]
  · dsimp only
    split
    · rfl
    · rw [useLinker_session]
      rfl

theorem writeCommand_journal (w : Workshop) :
    ∃ commands : List (List String), w.writeCommand.2.session.journal =
      w.session.journal ++ commands.map .command := by
  have hinput := congrArg Session.journal (linkInput_session w)
  unfold writeCommand
  split
  · dsimp only
    split
    · exact ⟨[], hinput.trans (List.append_nil _).symm⟩
    · rename_i input _
      have hnoted := congrArg (· ++ [.command (input.command journalProgram)]) hinput
      exact ⟨[input.command journalProgram], hnoted⟩
  · exact ⟨[], (List.append_nil _).symm⟩

/-- A link notes in the journal that it was called, and perhaps the command line of a linker. -/
theorem link_journal (w : Workshop) (cycle : Nat) :
    ∃ functions output, ∃ commands : List (List String), (w.link cycle).2.session.journal =
      w.session.journal ++ .link cycle functions output :: commands.map .command := by
  unfold link
  extract_lets w'
  obtain ⟨commands, hcommands⟩ := writeCommand_journal w'
  refine ⟨w.session.linkables, w.session.settings.outputPath w.session.workingDir, commands, ?_⟩
  have hnoted : w'.writeCommand.2.session.journal = w.session.journal ++
      .link cycle w.session.linkables (w.session.settings.outputPath w.session.workingDir) ::
        commands.map .command :=
    hcommands.trans (List.append_assoc ..)
  split
  · rename_i hwrite
    rwa [hwrite] at hnoted
  · rename_i v hwrite
    rw [hwrite] at hnoted
    exact (decideLink_journal v).trans hnoted

/-- A cycle ends with a session that waits for changes, with no problems noted and no types
that nothing mentions; the rest of it only a link can have changed. -/
theorem finish_session (w : Workshop) (compiled : Except BuildError Nat) :
    ∃ s : Session, s.unlinked = w.session.unlinked ∧
      (w.finish compiled).1.session =
        { s with
          cycle := w.session.cycle + 1, log := {}, types := s.types.reclaim
          phase := .waitingForChange } := by
  unfold finish
  cases compiled with
  | error e => exact ⟨w.session, rfl, rfl⟩
  | ok n => exact ⟨_, link_unlinked w (w.session.cycle + 1), rfl⟩

theorem finish_table (w : Workshop) (compiled : Except BuildError Nat) :
    (w.finish compiled).1.session.table = w.session.table := by
  obtain ⟨s, hs, hfinish⟩ := finish_session w compiled
  have htable := congrArg Session.table hs
  rw [hfinish]
  exact htable

/-- A cycle ends with a session that waits for changes, made with what it was made with. -/
theorem runCycle_settles (w : Workshop) (paths : List String) :
    (w.runCycle paths).1.session.phase = .waitingForChange ∧
      (w.runCycle paths).1.session.settings = w.session.settings ∧
      (w.runCycle paths).1.session.isStarted = w.session.isStarted := by
  have hcompiled := compile_inStepWith w paths
  obtain ⟨s, hs, hfinish⟩ := finish_session (w.compile paths).1 (w.compile paths).2
  have hsettings : s.settings = (w.compile paths).1.session.settings :=
    congrArg (fun s => s.settings) hs
  have hstarted : s.isStarted = (w.compile paths).1.session.isStarted :=
    congrArg (fun s => s.isStarted) hs
  unfold runCycle
  dsimp only
  rw [hfinish]
  exact ⟨rfl, hsettings.trans hcompiled.settings, hstarted.trans hcompiled.isStarted⟩

end Workshop

end IncrementalBuild
