import IncrementalBuild.Proofs.Files.Watching
import IncrementalBuild.Proofs.Session.Frames

/-!
# Sessions that can be reached

A session is made, and then it starts, is told of changes, rebuilds, links, reports and is
torn down, while the files it sees and the toolchain it shares change as they like. What
holds of the live declarations after every rebuild holds in every state that can be
reached, and a session never watches anything but its root file.
-/

set_option autoImplicit false

namespace IncrementalBuild

namespace Workshop

variable {w : Workshop}

/-! ## How a session comes to build -/

/-- A session that has started to build its root file. -/
def opened (w : Workshop) (root : String) : Workshop :=
  { w with
    toolchain :=
      if w.session.settings.needsNativeRuntime then w.toolchain.nativeRuntime.2 else w.toolchain
    session := watch { w.session with isStarted := true, phase := .initialCompile } root }

/-- A session that has begun to build what changed. -/
def resumed (w : Workshop) : Workshop :=
  w.modify ({ · with watcher := w.session.watcher.takeChanges.2, phase := .rebuilding })

/-- A session that starts builds its root file, if it was not told to start before, is not torn
down and has one. -/
theorem start_eq {root : String} (hidle : w.session.isStarted = false)
    (hlive : w.session.isCancelled = false) (hroot : w.session.settings.root = some root) :
    w.start = (((w.opened root).runCycle [root]).1, some ((w.opened root).runCycle [root]).2) := by
  have hcan : ¬(w.session.isStarted || w.session.isCancelled) = true := by
    rw [hidle, hlive]
    decide
  unfold start
  rw [if_neg hcan]
  extract_lets v v'
  have hopened : v'.modify (fun s => watch { s with phase := .initialCompile } root) =
      w.opened root := by
    unfold v' opened
    split
    · rename_i hneeds
      change w.session.settings.needsNativeRuntime = true at hneeds
      rw [if_pos hneeds]
      rfl
    · rename_i hneeds
      change ¬w.session.settings.needsNativeRuntime = true at hneeds
      rw [if_neg hneeds]
      rfl
  have hroot' : v'.session.settings.root = some root := by
    unfold v'
    split <;> exact hroot
  unfold firstCycle
  rw [hroot', ← hopened]

theorem start_cases (w : Workshop) :
    (w.start.2 = none ∧ (w.start.1.session = w.session ∨ ∃ isStarted phase,
      w.start.1.session = { w.session with isStarted, phase } ∧ w.session.settings.root = none)) ∨
    ∃ root, w.session.isStarted = false ∧ w.session.isCancelled = false ∧
      w.session.settings.root = some root ∧
      w.start =
        (((w.opened root).runCycle [root]).1, some ((w.opened root).runCycle [root]).2) := by
  cases hcan : w.session.isStarted || w.session.isCancelled with
  | true =>
    left
    unfold start
    rw [if_pos hcan]
    exact ⟨rfl, .inl rfl⟩
  | false =>
    obtain ⟨hidle, hlive⟩ := Bool.or_eq_false_iff.1 hcan
    cases hroot : w.session.settings.root with
    | some root => exact .inr ⟨root, hidle, hlive, rfl, start_eq hidle hlive hroot⟩
    | none =>
      left
      unfold start
      rw [if_neg (by rw [hcan]; decide)]
      extract_lets v v'
      have hv : v'.session = v.session := by
        unfold v'
        split <;> rfl
      have hroot' : v'.session.settings.root = none := by
        rw [hv]
        exact hroot
      unfold firstCycle
      rw [hroot']
      refine ⟨rfl, .inr ⟨true, .waitingForChange, ?_, rfl⟩⟩
      change { v'.session with phase := .waitingForChange } = _
      rw [hv]
      rfl

theorem beginRebuild_cases (w : Workshop) :
    ((w.session.phase = .waitingForChange → w.takeChanges.1 = []) ∧ w.beginRebuild.2 = none ∧
      ∃ queue, w.beginRebuild.1 =
        w.modify fun s => { s with watcher := { s.watcher with queue } }) ∨
    (w.session.phase = .waitingForChange ∧ w.takeChanges.1 ≠ [] ∧
      w.beginRebuild = ((w.resumed.compile w.takeChanges.1).1,
        some (w.resumed.compile w.takeChanges.1).2)) := by
  unfold beginRebuild
  split
  · rename_i hphase
    dsimp only
    by_cases hpaths : w.takeChanges.1 = []
    · left
      rw [if_pos (List.isEmpty_iff.2 hpaths)]
      exact ⟨fun _ => hpaths, rfl, [], rfl⟩
    · right
      rw [if_neg (fun hempty => hpaths (List.isEmpty_iff.1 hempty))]
      exact ⟨hphase, hpaths, rfl⟩
  · rename_i hphase
    exact .inl ⟨fun hwaits => absurd hwaits hphase, rfl, w.session.watcher.queue, rfl⟩

theorem react_eq (hphase : w.session.phase = .waitingForChange) (hsome : w.takeChanges.1 ≠ []) :
    w.react = ((w.resumed.runCycle w.takeChanges.1).1,
      some (w.resumed.runCycle w.takeChanges.1).2) := by
  unfold react
  rcases beginRebuild_cases w with ⟨hnil, -⟩ | ⟨-, -, hbegin⟩
  · exact absurd (hnil hphase) hsome
  · rw [hbegin]
    rfl

theorem react_cases (w : Workshop) :
    (w.react.2 = none ∧ ∃ queue, w.react.1 =
      w.modify fun s => { s with watcher := { s.watcher with queue } }) ∨
    (w.session.phase = .waitingForChange ∧ w.takeChanges.1 ≠ [] ∧
      w.react = ((w.resumed.runCycle w.takeChanges.1).1,
        some (w.resumed.runCycle w.takeChanges.1).2)) := by
  unfold react
  rcases beginRebuild_cases w with ⟨-, hnone, queue, hstate⟩ | ⟨hphase, hsome, hbegin⟩
  · left
    split
    · rename_i v heq
      rw [heq] at hstate
      exact ⟨rfl, queue, hstate⟩
    · rename_i v compiled heq
      rw [heq] at hnone
      cases hnone
  · right
    rw [hbegin]
    exact ⟨hphase, hsome, rfl⟩

/-! ## The live declarations -/

theorem sound_rebuild (h : w.session.table.Sound) (path : String) :
    (w.rebuild path).state.session.table.Sound := by
  rcases rebuild_cases w path with ⟨outcome, -, hstate⟩ | ⟨problem, hstate⟩ |
    ⟨text, -, ⟨e, -, hstate⟩ | ⟨-, hstate⟩⟩
  · rwa [hstate]
  · rwa [hstate]
  · rwa [hstate]
  · rw [hstate]
    exact sound_takeOver h rfl

/-- Every task keeps the table sound. -/
theorem sound_runTask (h : w.session.table.Sound) (task : BuildTask) :
    (runTask task w).state.session.table.Sound := by
  cases hrebuild : task.isRebuild with
  | true =>
    cases task with
    | rebuild path => exact sound_rebuild h path
    | _ => cases hrebuild
  | false =>
    have hstill := congrArg Session.table (runTask_still hrebuild w)
    change (runTask task w).state.session.table = w.session.table at hstill
    rwa [hstill]

theorem sound_compile (h : w.session.table.Sound) (paths : List String) :
    (w.compile paths).1.session.table.Sound := by
  have hkeeps : GroupRun.Keeps runTask (fun _ => True) fun v => v.session.table.Sound :=
    fun task v _ hv => ⟨sound_runTask hv task, fun _ _ => trivial⟩
  have hgroup : (runGroup groupName runTask BuildTask.depth (paths.map .rebuild)
      w).state.session.table.Sound := hkeeps.runGroup (fun _ _ => trivial) h
  unfold compile
  dsimp only
  split <;> exact hgroup

/-! ## The states of a session -/

/-- The states a session can come to. Between its own steps the files and the toolchain may
change in any way, and a link may be tried with any result of the tasks before it. -/
inductive Reachable : Workshop → Prop where
  | created {t t' : Toolchain} {setup : SessionSetup} {s : Session} (files : FileTree) :
      t.createSession setup = (.ok s, t') → Reachable ⟨s, t', files⟩
  | outside {w : Workshop} (toolchain : Toolchain) (files : FileTree) :
      Reachable w → Reachable { w with toolchain, files }
  | start {w : Workshop} : Reachable w → Reachable w.start.1
  | touch {w : Workshop} (path : String) : Reachable w → Reachable (w.touch path).2
  | react {w : Workshop} : Reachable w → Reachable w.react.1
  | beginRebuild {w : Workshop} : Reachable w → Reachable w.beginRebuild.1
  | finish {w : Workshop} (compiled : Except BuildError Nat) :
      Reachable w → Reachable (w.finish compiled).1
  | takeJournal {w : Workshop} : Reachable w → Reachable (w.modify (·.takeJournal.2))
  | teardown {w : Workshop} : Reachable w → Reachable w.teardown

theorem sound_beginRebuild (h : w.session.table.Sound) :
    w.beginRebuild.1.session.table.Sound := by
  rcases beginRebuild_cases w with ⟨-, -, queue, hstate⟩ | ⟨-, -, hbegin⟩
  · rw [hstate]
    exact h
  · rw [hbegin]
    refine sound_compile ?_ _
    exact h

theorem sound_runCycle (h : w.session.table.Sound) (paths : List String) :
    (w.runCycle paths).1.session.table.Sound := by
  unfold runCycle
  dsimp only
  rw [finish_table]
  exact sound_compile h paths

theorem sound_react (h : w.session.table.Sound) : w.react.1.session.table.Sound := by
  rcases react_cases w with ⟨-, queue, hstate⟩ | ⟨-, -, hreact⟩
  · rw [hstate]
    exact h
  · rw [hreact]
    refine sound_runCycle ?_ _
    exact h

theorem sound_start (h : w.session.table.Sound) : w.start.1.session.table.Sound := by
  rcases start_cases w with ⟨-, hsame | ⟨_, _, hsame, -⟩⟩ | ⟨root, -, -, -, hstart⟩
  · rwa [hsame]
  · rw [hsame]
    exact h
  · rw [hstart]
    refine sound_runCycle ?_ _
    exact h

/-- A session that was just made has its settings and nothing else. -/
theorem createSession_eq_ok {t t' : Toolchain} {setup : SessionSetup} {s : Session}
    (h : t.createSession setup = (.ok s, t')) :
    ∃ id machine context, s =
      { id, machine
        settings := setup.settings
        context := some context
        analyzer := setup.analyzer
        plan := setup.plan
        workingDir := setup.workingDir } := by
  unfold Toolchain.createSession at h
  dsimp only at h
  split at h
  · cases h
  · split at h
    · cases h
    · cases h
      exact ⟨_, _, _, rfl⟩

/-- In every state that can be reached, the names of the live declarations are unique, and
each is a function of the file it was read from. -/
theorem Reachable.sound_table (h : w.Reachable) : w.session.table.Sound := by
  induction h with
  | created files hcreate =>
    obtain ⟨_, _, _, rfl⟩ := createSession_eq_ok hcreate
    exact DeclTable.sound_empty
  | outside _ _ _ ih => exact ih
  | start _ ih => exact sound_start ih
  | touch _ _ ih => exact ih
  | react _ ih => exact sound_react ih
  | beginRebuild _ ih => exact sound_beginRebuild ih
  | finish compiled _ ih => rwa [finish_table]
  | takeJournal _ ih => exact ih
  | teardown _ ih =>
    unfold Workshop.teardown
    split <;> exact ih

/-! ## What a session watches -/

end Workshop

/-- The file a session watches: its root file, once it was told to start. -/
def Session.watchedRoot? (s : Session) : Option String :=
  if s.isStarted then s.settings.root else none

/-- A session watches nothing, or its root file under the first token. -/
def Session.WatchesRoot (s : Session) : Prop :=
  s.watcher.paths = s.watchedRoot?.toList ∧
    s.watched = s.watchedRoot?.toList.map fun root => (⟨0⟩, root)

theorem filterMap_lookup_singleton {token : FileToken} {root : String} (tokens : List FileToken) :
    (tokens.filterMap fun t => List.lookup t [(token, root)]) =
      List.replicate (tokens.count token) root := by
  induction tokens with
  | nil => rfl
  | cons t ts ih =>
    by_cases ht : t = token
    · subst ht
      have hlookup : List.lookup t [(t, root)] = some root := List.lookup_cons_self
      rw [List.filterMap_cons, hlookup, ih, List.count_cons_self, List.replicate_succ]
    · have hlookup : List.lookup t [(token, root)] = none := by simp [ht]
      rw [List.filterMap_cons, hlookup, ih, List.count_cons_of_ne ht]

/-- The changes a session sees are changes of its root file. -/
theorem Session.WatchesRoot.changes {s : Session} (h : s.WatchesRoot) {tokens : List FileToken}
    (htokens : tokens.Nodup) :
    (tokens.filterMap fun t => List.lookup t s.watched) = [] ∨
      ∃ root, s.settings.root = some root ∧
        (tokens.filterMap fun t => List.lookup t s.watched) = [root] := by
  rw [h.2]
  cases hroot : s.watchedRoot? with
  | none =>
    left
    simp
  | some root =>
    have hsettings : s.settings.root = some root := by
      unfold watchedRoot? at hroot
      split at hroot
      · exact hroot
      · cases hroot
    rw [Option.toList_some, List.map_singleton, filterMap_lookup_singleton]
    by_cases htoken : ⟨0⟩ ∈ tokens
    · right
      refine ⟨root, hsettings, ?_⟩
      rw [List.count_eq_one_of_mem htokens htoken, List.replicate_one]
    · left
      rw [List.count_eq_zero_of_not_mem htoken, List.replicate_zero]

namespace Workshop

variable {w : Workshop}

theorem watchesRoot_compile (h : w.session.WatchesRoot) (paths : List String) :
    (w.compile paths).1.session.WatchesRoot := by
  have hstep := compile_inStepWith w paths
  unfold Session.WatchesRoot Session.watchedRoot?
  rw [hstep.watcher, hstep.watched, hstep.isStarted, hstep.settings]
  exact h

theorem watchesRoot_finish (h : w.session.WatchesRoot) (compiled : Except BuildError Nat) :
    (w.finish compiled).1.session.WatchesRoot := by
  obtain ⟨s, hs, hfinish⟩ := finish_session w compiled
  rw [hfinish]
  change s.unlinked.WatchesRoot
  rw [hs]
  exact h

theorem watchesRoot_beginRebuild (h : w.session.WatchesRoot) :
    w.beginRebuild.1.session.WatchesRoot := by
  rcases beginRebuild_cases w with ⟨-, -, queue, hstate⟩ | ⟨-, -, hbegin⟩
  · rw [hstate]
    exact h
  · rw [hbegin]
    refine watchesRoot_compile ?_ _
    exact h

theorem watchesRoot_runCycle (h : w.session.WatchesRoot) (paths : List String) :
    (w.runCycle paths).1.session.WatchesRoot :=
  watchesRoot_finish (watchesRoot_compile h paths) _

theorem watchesRoot_react (h : w.session.WatchesRoot) : w.react.1.session.WatchesRoot := by
  rcases react_cases w with ⟨-, queue, hstate⟩ | ⟨-, -, hreact⟩
  · rw [hstate]
    exact h
  · rw [hreact]
    refine watchesRoot_runCycle ?_ _
    exact h

theorem watchesRoot_start (h : w.session.WatchesRoot) : w.start.1.session.WatchesRoot := by
  rcases start_cases w with ⟨-, hsame | ⟨_, _, hsame, hroot⟩⟩ | ⟨root, hidle, -, hroot, hstart⟩
  · rwa [hsame]
  · have hnone (isStarted : Bool) :
        (if isStarted then w.session.settings.root else none) = none := by
      rw [hroot, ite_self]
    rw [hsame]
    unfold Session.WatchesRoot Session.watchedRoot? at h ⊢
    rw [hnone] at h ⊢
    exact h
  · unfold Session.WatchesRoot Session.watchedRoot? at h
    rw [hidle] at h
    obtain ⟨hpaths, hwatched⟩ := h
    have hsubscribe : w.session.watcher.subscribe root =
        (⟨0⟩, { w.session.watcher with paths := [root] }) := by
      unfold Watcher.subscribe Watcher.token?
      rw [hpaths]
      rfl
    rw [hstart]
    refine watchesRoot_runCycle ?_ _
    unfold opened watch
    dsimp only
    rw [hsubscribe, hwatched]
    unfold Session.WatchesRoot Session.watchedRoot?
    dsimp only
    rw [hroot]
    exact ⟨rfl, rfl⟩

theorem touch_paths (s : Watcher) (path : String) : (s.touch path).2.paths = s.paths := by
  unfold Watcher.touch
  split <;> rfl

/-- In every state that can be reached, a session watches nothing or its root file. -/
theorem Reachable.watchesRoot (h : w.Reachable) : w.session.WatchesRoot := by
  induction h with
  | created files hcreate =>
    obtain ⟨_, _, _, rfl⟩ := createSession_eq_ok hcreate
    exact ⟨rfl, rfl⟩
  | outside _ _ _ ih => exact ih
  | start _ ih => exact watchesRoot_start ih
  | touch path _ ih => exact ⟨(touch_paths _ path).trans ih.1, ih.2⟩
  | react _ ih => exact watchesRoot_react ih
  | beginRebuild _ ih => exact watchesRoot_beginRebuild ih
  | finish compiled _ ih => exact watchesRoot_finish ih compiled
  | takeJournal _ ih => exact ih
  | teardown _ ih =>
    unfold Workshop.teardown
    split <;> exact ih

/-- A session that waits and is told that its root file changed builds that file. -/
theorem touch_react {root : String} (h : w.session.WatchesRoot)
    (hstarted : w.session.isStarted = true) (hroot : w.session.settings.root = some root)
    (hphase : w.session.phase = .waitingForChange) :
    (w.touch root).2.react = (((w.touch root).2.resumed.runCycle [root]).1,
      some ((w.touch root).2.resumed.runCycle [root]).2) := by
  have hwatched : w.session.watchedRoot? = some root := by
    rw [Session.watchedRoot?, hstarted, hroot]
    rfl
  have htoken : w.session.watcher.token? root = some ⟨0⟩ := by
    have hsame : Path.same root root = true := Path.same_iff.2 rfl
    unfold Watcher.token?
    rw [h.1, hwatched, Option.toList_some, List.findIdx?_singleton, hsame]
    rfl
  have htouch : (w.touch root).2 =
      w.modify ({ · with
        watcher := { w.session.watcher with queue := w.session.watcher.queue ++ [⟨0⟩] } }) := by
    unfold touch Watcher.touch
    rw [htoken]
  have hsome : (w.touch root).2.takeChanges.1 ≠ [] := by
    rw [htouch]
    refine List.ne_nil_of_mem (a := root) (List.mem_filterMap.2 ⟨⟨0⟩, ?_, ?_⟩)
    · exact Watcher.mem_distinct.2 (List.mem_append_right _ (List.mem_singleton_self _))
    · change List.lookup _ w.session.watched = _
      rw [h.2, hwatched]
      rfl
  have hone : (w.touch root).2.takeChanges.1 = [root] := by
    have hwatches : (w.touch root).2.session.WatchesRoot := by
      rw [htouch]
      exact h
    rcases hwatches.changes (Watcher.nodup_distinct _) with hnil | ⟨r, hr, hchanges⟩
    · exact absurd hnil hsome
    · rw [htouch] at hr
      obtain rfl := Option.some.inj (hroot.symm.trans hr)
      exact hchanges
  rw [react_eq ?_ hsome, hone]
  rw [htouch]
  exact hphase

end Workshop

end IncrementalBuild
