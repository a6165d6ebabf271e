import IncrementalBuild.Proofs.Session.Runs
import Mathlib.Data.List.Induction

/-!
# What a session reports

A session is shown contents of its files, one after the other, and its links may end as they like.
It answers each with one event. What the tasks of a cycle note goes to the end of a list that is
empty before the cycle, and each failure of a task is an error of the group. So the event of a
cycle tells how the tasks of that cycle and its link ended and what was noted in it, and nothing
of any other cycle.
-/

set_option autoImplicit false

namespace IncrementalBuild

/-- The cycle whose link an entry of a journal notes. -/
def JournalEntry.linked? : JournalEntry → Option Nat
  | .link cycle _ _ => some cycle
  | _ => none

/-- The cycles in which the linker was called, as the journal tells. -/
def Session.linkedCycles (s : Session) : List Nat := s.journal.filterMap (·.linked?)

namespace Workshop

variable {w : Workshop} {root : String}

/-! ## What tasks note -/

/-- The problems that tasks note, in the order in which they do. -/
def notedIn (history : List (TaskRun Workshop BuildTask)) : List Diagnostic :=
  history.flatMap fun x =>
    (x.step runTask).state.session.log.entries.drop x.before.session.log.entries.length

/-- The errors that tasks end with, in the order in which they do. -/
def failuresIn (history : List (TaskRun Workshop BuildTask)) : List BuildError :=
  errorsOf groupName runTask history

/-- Work that adds to what was noted and calls no linker. -/
structure OnlyNotes (s s' : Session) : Prop where
  noted : s.log.entries <+: s'.log.entries
  linked : s'.linkedCycles = s.linkedCycles

theorem OnlyNotes.refl (s : Session) : OnlyNotes s s := ⟨List.prefix_refl _, rfl⟩

theorem OnlyNotes.trans {s s' s'' : Session} (h : OnlyNotes s s') (h' : OnlyNotes s' s'') :
    OnlyNotes s s'' :=
  ⟨h.noted.trans h'.noted, h'.linked.trans h.linked⟩

/-- What leaves the problems and the journal as they are. -/
theorem onlyNotes_of_eq {s s' : Session} (hlog : s'.log = s.log)
    (hjournal : s'.journal = s.journal) : OnlyNotes s s' :=
  ⟨hlog ▸ List.prefix_refl _, congrArg (List.filterMap JournalEntry.linked?) hjournal⟩

theorem onlyNotes_report (s : Session) (d : Diagnostic) : OnlyNotes s (s.report d) :=
  ⟨List.prefix_append _ _, rfl⟩

theorem onlyNotes_analysis (s : Session) (r : AnalysisRequest) :
    OnlyNotes s (s.note (analysisEntry r)) :=
  ⟨List.prefix_refl _, (List.filterMap_append).trans (List.append_nil _)⟩

theorem onlyNotes_takeOver (w : Workshop) (file : SourceFile) :
    OnlyNotes w.session (takeOver w file).state.session := by
  have hshown : OnlyNotes w.session (shown w file) := by
    unfold shown
    split
    · exact onlyNotes_of_eq rfl rfl
    · exact .refl _
  rw [takeOver_eq]
  dsimp only
  rw [foldl_applyChange]
  exact hshown.trans ⟨List.prefix_append _ _, rfl⟩

theorem onlyNotes_rebuild (w : Workshop) (path : String) :
    OnlyNotes w.session (w.rebuild path).state.session := by
  rcases rebuild_cases w path with ⟨outcome, -, hstate⟩ | ⟨problem, hstate⟩ |
    ⟨text, -, ⟨e, -, hstate⟩ | ⟨-, hstate⟩⟩
  · rw [hstate]
    exact .refl _
  · rw [hstate]
    exact onlyNotes_report _ _
  · rw [hstate]
    exact ⟨List.prefix_append _ _, rfl⟩
  · rw [hstate]
    have hseen : OnlyNotes w.session (seen w path text).session := onlyNotes_of_eq rfl rfl
    exact hseen.trans (onlyNotes_takeOver _ _)

theorem onlyNotes_resolveBody (w : Workshop) (d : Decl) (params : List TypeId)
    (result type : TypeId) (body : Span) :
    OnlyNotes w.session (w.resolveBody d params result type body).state.session := by
  unfold resolveBody
  extract_lets before request s₁ gone f call kept told
  have hbegun : OnlyNotes before s₁ := (onlyNotes_analysis before request).trans
    (onlyNotes_of_eq rfl rfl)
  refine hbegun.trans ?_
  have hgone : OnlyNotes s₁ gone := onlyNotes_of_eq rfl rfl
  cases s₁.analyzer request with
  | crashed message => exact hgone.trans (onlyNotes_of_eq rfl rfl)
  | rejected code message =>
    have hreported := hgone.trans (onlyNotes_report gone (rejection d.file body code message))
    exact hreported.trans (onlyNotes_of_eq rfl rfl)
  | accepted =>
    have htold : OnlyNotes s₁ told := by
      unfold told
      split
      · exact onlyNotes_of_eq rfl rfl
      · exact onlyNotes_of_eq rfl rfl
    exact htold.trans (onlyNotes_of_eq rfl rfl)

theorem onlyNotes_produce (w : Workshop) (d : Decl) :
    OnlyNotes w.session (w.produce d).state.session := by
  unfold produce
  extract_lets s reading s₁
  have hread : OnlyNotes s s₁ := ⟨List.prefix_append _ _, rfl⟩
  refine hread.trans ?_
  cases reading.found with
  | none => exact onlyNotes_of_eq rfl rfl
  | some ids =>
    dsimp only
    generalize s₁.types.intern (.function ids.dropLast (ids.getLast?.getD 0)
      (TypeReading.convention d.item)) = interned
    have hinterned : OnlyNotes s₁ { s₁ with types := interned.2 } := onlyNotes_of_eq rfl rfl
    cases d.item.body with
    | some body =>
      let v : Workshop := { w with session := { s₁ with types := interned.2 } }
      exact hinterned.trans (onlyNotes_resolveBody v d _ _ _ body)
    | none => exact hinterned.trans (onlyNotes_of_eq rfl rfl)

/-- Whatever the state, a task only adds to what was noted. -/
theorem onlyNotes_runTask (task : BuildTask) (w : Workshop) :
    OnlyNotes w.session (runTask task w).state.session := by
  cases task with
  | rebuild path => exact onlyNotes_rebuild w path
  | claim ticket d =>
    unfold runTask claim
    dsimp only
    split
    · exact ⟨List.prefix_append _ _, rfl⟩
    · exact onlyNotes_of_eq rfl rfl
  | resolve d =>
    unfold runTask resolve
    dsimp only
    split
    · rename_i begun _
      have hbegun : OnlyNotes w.session (w.session.setResolution d.id begun) :=
        onlyNotes_of_eq rfl rfl
      exact hbegun.trans (onlyNotes_produce (w.modify (·.setResolution d.id begun)) d)
    · exact .refl _
  | runComptime file block =>
    unfold runTask runComptime
    dsimp only
    split
    · exact onlyNotes_analysis _ _
    · exact (onlyNotes_analysis _ _).trans (onlyNotes_report _ _)
    · exact onlyNotes_analysis _ _
  | generate call => exact .refl _
  | link f => exact onlyNotes_of_eq rfl rfl

/-! ## One cycle -/

/-- The tasks of a cycle add what they note to the list, and call no linker. -/
theorem compile_notes (w : Workshop) (root : String) :
    (w.compile [root]).1.session.log.entries =
        w.session.log.entries ++ notedIn (w.cycleHistory root) ∧
      (w.compile [root]).1.session.linkedCycles = w.session.linkedCycles ∧
      (w.compile [root]).1.session.cycle = w.session.cycle := by
  have hleads := (runGroup_history groupName runTask BuildTask.depth [.rebuild root] w).1
  obtain ⟨phase, hsession⟩ := compile_session w [root]
  have hnoted := hleads.added (f := fun w => w.session.log.entries) fun task w =>
    (onlyNotes_runTask task w).noted
  have hlinked := (hleads.kept (I := fun v => v.session.linkedCycles = w.session.linkedCycles) rfl
    fun x _ hx => (onlyNotes_runTask x.task x.before).linked.trans hx).1
  have hforget (s : Session) : { s.forget with phase }.log = s.log ∧
      { s.forget with phase }.linkedCycles = s.linkedCycles := ⟨rfl, rfl⟩
  refine ⟨?_, ?_, (compile_inStepWith w [root]).cycle⟩
  · rw [hsession, (hforget _).1]
    exact hnoted
  · rw [hsession, (hforget _).2]
    exact hlinked

/-- The tasks of a cycle go well exactly if none of them fails, and else the first error counts. -/
theorem compile_verdict (w : Workshop) (root : String) :
    (w.compile [root]).2 = match failuresIn (w.cycleHistory root) with
      | e :: _ => .error e
      | [] => .ok (w.cycleHistory root).length := by
  have herrors := runGroup_errors groupName runTask BuildTask.depth [.rebuild root] w
  have hran := (runGroup_history groupName runTask BuildTask.depth [.rebuild root] w).2
  have hverdict : (w.compile [root]).2 =
      (runGroup groupName runTask BuildTask.depth [.rebuild root] w).verdict := by
    unfold compile
    dsimp only
    rw [List.map_singleton]
    split <;> (rename_i h; exact h.symm)
  rw [hverdict, GroupRun.verdict, herrors, hran]
  rfl

/-- A link is noted in the journal, whatever comes of it. -/
theorem link_linkedCycles (w : Workshop) (cycle : Nat) :
    (w.link cycle).2.session.linkedCycles = w.session.linkedCycles ++ [cycle] := by
  obtain ⟨functions, output, commands, hjournal⟩ := link_journal w cycle
  have hnone : (commands.map JournalEntry.command).filterMap (·.linked?) = [] := by
    simp [JournalEntry.linked?]
  rw [Session.linkedCycles, hjournal, List.filterMap_append, List.filterMap_cons, hnone]
  rfl

/-- What a cycle leaves: the next cycle has its own number and nothing noted, and the linker was
called exactly if no task failed. -/
theorem runCycle_leaves (w : Workshop) (root : String) :
    (w.runCycle [root]).1.session.cycle = w.session.cycle + 1 ∧
      (w.runCycle [root]).1.session.log = {} ∧
      (w.runCycle [root]).1.session.linkedCycles = w.session.linkedCycles ++
        if failuresIn (w.cycleHistory root) = [] then [w.session.cycle + 1] else [] := by
  obtain ⟨-, hlinked, hcycle⟩ := compile_notes w root
  have hverdict := compile_verdict w root
  unfold runCycle finish
  dsimp only
  cases hfailures : failuresIn (w.cycleHistory root) with
  | nil =>
    rw [hfailures] at hverdict
    rw [hverdict, hcycle, if_pos rfl, ← hlinked]
    exact ⟨rfl, rfl, link_linkedCycles _ _⟩
  | cons e rest =>
    rw [hfailures] at hverdict
    rw [hverdict, hcycle, if_neg (List.cons_ne_nil _ _), ← hlinked, List.append_nil]
    exact ⟨rfl, rfl, rfl⟩

/-- The event of a cycle that begins with nothing noted. -/
theorem runCycle_event (hquiet : w.session.log = {}) (root : String) :
    (w.runCycle [root]).2.cycle = w.session.cycle + 1 ∧ (w.runCycle [root]).2.outcome =
      match failuresIn (w.cycleHistory root) with
      | e :: _ => .error e
      | [] => outcome ((w.compile [root]).1.link (w.session.cycle + 1)).1
          ⟨notedIn (w.cycleHistory root)⟩ := by
  obtain ⟨hnoted, -, hcycle⟩ := compile_notes w root
  have hlog : (w.compile [root]).1.session.log = ⟨notedIn (w.cycleHistory root)⟩ := by
    rw [hquiet] at hnoted
    exact congrArg DiagnosticLog.mk hnoted
  unfold runCycle
  dsimp only
  rw [finish_event, compile_verdict, hcycle, hlog]
  refine ⟨rfl, ?_⟩
  cases failuresIn (w.cycleHistory root) <;> rfl

/-- What an outcome tells: an error exactly if a task or the link failed, success exactly if neither
did and nothing was noted, and else what was noted. -/
structure Tells (o : BuildOutcome) (failures : List BuildError) (linked : Except BuildError Unit)
    (noted : List Diagnostic) : Prop where
  error : ∀ e, o = .error e ↔ failures.head? = some e ∨ failures = [] ∧ linked = .error e
  ok : o = .ok ↔ failures = [] ∧ linked = .ok () ∧ noted = []
  fail : ∀ ds, o = .fail ds ↔ failures = [] ∧ linked = .ok () ∧ noted = ds ∧ ds ≠ []

theorem tells_runCycle (hquiet : w.session.log = {}) (root : String) :
    Tells (w.runCycle [root]).2.outcome (failuresIn (w.cycleHistory root))
      ((w.compile [root]).1.link (w.session.cycle + 1)).1 (notedIn (w.cycleHistory root)) := by
  rw [(runCycle_event hquiet root).2]
  cases failuresIn (w.cycleHistory root) with
  | cons e rest => exact ⟨by simp, by simp, by simp⟩
  | nil =>
    cases ((w.compile [root]).1.link (w.session.cycle + 1)).1 with
    | error e => exact ⟨by simp [outcome], by simp [outcome], by simp [outcome]⟩
    | ok _ =>
      cases notedIn (w.cycleHistory root) with
      | nil =>
        exact ⟨by simp [outcome, DiagnosticLog.isEmpty], by simp [outcome, DiagnosticLog.isEmpty],
          by simp [outcome, DiagnosticLog.isEmpty]⟩
      | cons d rest =>
        exact ⟨by simp [outcome, DiagnosticLog.isEmpty], by simp [outcome, DiagnosticLog.isEmpty],
          by simp [outcome, DiagnosticLog.isEmpty]⟩

/-! ## All cycles -/

/-- The events of a session that is shown contents of its files, one after the other. -/
def events (w : Workshop) (root : String) : List FileTree → List BuildEvent
  | [] => []
  | files :: rest => (w.revise root files).2.toList ++ (w.revise root files).1.events root rest

theorem events_concat (w : Workshop) (root : String) (contents : List FileTree) (files : FileTree) :
    w.events root (contents ++ [files]) =
      w.events root contents ++ ((w.reviseAll root contents).revise root files).2.toList := by
  induction contents generalizing w with
  | nil => exact List.append_nil _
  | cons first contents ih =>
    rw [List.cons_append, events, events, ih, List.append_assoc]
    rfl

/-- To begin a cycle changes neither its number nor what is noted and linked. -/
theorem begun_reports (w : Workshop) (root : String) (files : FileTree) :
    (w.begun root files).session.cycle = w.session.cycle ∧
      (w.begun root files).session.linkedCycles = w.session.linkedCycles := by
  unfold begun
  split
  · exact ⟨rfl, rfl⟩
  · exact ⟨rfl, rfl⟩

/-- The cycles of a session are numbered in turn. -/
theorem events_reviseAll {setup : SessionSetup} (h : w.session.Awaits setup)
    (hroot : setup.settings.root = some root) (contents : List FileTree) :
    (w.reviseAll root contents).session.cycle = w.session.cycle + contents.length ∧
      (w.events root contents).map (·.cycle) =
        List.range' (w.session.cycle + 1) contents.length := by
  induction contents using List.reverseRecOn with
  | nil => exact ⟨rfl, rfl⟩
  | append_singleton contents files ih =>
    obtain ⟨hcycle, hnumbers⟩ := ih
    obtain ⟨hsettled, -, -, -, -, -, hrun, -⟩ :=
      begun_of_awaits (reviseAll_awaits h hroot contents) hroot files
    obtain ⟨hbegun, -⟩ := begun_reports (w.reviseAll root contents) root files
    have hnumber := (runCycle_event hsettled.quiet root).1
    have hnext := (runCycle_leaves ((w.reviseAll root contents).begun root files) root).1
    rw [hbegun, hcycle] at hnumber hnext
    rw [reviseAll_concat, events_concat, hrun, List.length_append, List.map_append, hnumbers,
      List.length_singleton, List.range'_1_concat]
    refine ⟨hnext, congrArg _ ?_⟩
    rw [Option.toList_some, List.map_singleton, hnumber]
    exact congrArg (fun n => [n]) (Nat.add_right_comm ..)

/-- A session is shown any contents of its files, one after the other, and its links may end as they
like. It answers each with one event, and the events are numbered in turn. Each tells how the tasks
of its own cycle and its link ended and what those tasks noted, the linker is called exactly in the
cycles in which no task failed, and nothing that was noted outlives its cycle. -/
theorem each_cycle_is_reported_once {t t' : Toolchain} {session : Session} {setup : SessionSetup}
    (hroot : setup.settings.root = some root)
    (hcreate : t.createSession setup = (.ok session, t')) (before : FileTree)
    (contents : List FileTree) :
    let w : Workshop := ⟨session, t', before⟩
    let v := w.reviseAll root contents
    (w.events root contents).map (·.cycle) = List.range' 1 contents.length ∧
    v.session.log = {} ∧
    ∀ files, let u := v.begun root files
      let history := u.cycleHistory root
      ∃ event, w.events root (contents ++ [files]) = w.events root contents ++ [event] ∧
        event.cycle = contents.length + 1 ∧
        Tells event.outcome (failuresIn history)
          ((u.compile [root]).1.link (contents.length + 1)).1 (notedIn history) ∧
        (w.reviseAll root (contents ++ [files])).session.linkedCycles = v.session.linkedCycles ++
          if failuresIn history = [] then [contents.length + 1] else [] := by
  intro w v
  have hawaits : w.session.Awaits setup := createSession_awaits hcreate
  have hfirst : w.session.cycle = 0 := by
    obtain ⟨id, machine, context, hmade⟩ := createSession_eq_ok hcreate
    exact congrArg (fun s => s.cycle) hmade
  obtain ⟨hcycle, hnumbers⟩ := events_reviseAll hawaits hroot contents
  rw [hfirst] at hcycle hnumbers
  rw [Nat.zero_add] at hcycle
  have hwaits : v.session.Awaits setup := reviseAll_awaits hawaits hroot contents
  refine ⟨hnumbers, hwaits.settled.quiet, fun files => ?_⟩
  intro u history
  obtain ⟨hsettled, -, -, -, -, -, hrun, -⟩ := begun_of_awaits hwaits hroot files
  obtain ⟨hbegun, hbegunLinks⟩ := begun_reports v root files
  have hnumber : u.session.cycle = contents.length := hbegun.trans hcycle
  refine ⟨(u.runCycle [root]).2, ?_, ?_, ?_, ?_⟩
  · rw [events_concat]
    exact congrArg (fun r => w.events root contents ++ r.2.toList) hrun
  · rw [← hnumber]
    exact (runCycle_event hsettled.quiet root).1
  · rw [← hnumber]
    exact tells_runCycle hsettled.quiet root
  · rw [reviseAll_concat, ← hnumber, ← hbegunLinks]
    refine Eq.trans ?_ (runCycle_leaves u root).2.2
    exact congrArg (fun r => r.1.session.linkedCycles) hrun

/-- Three cycles, of which the first ends with a link that is refused: the third has its number, and
what it tells is its own. -/
theorem third_cycle_after_a_refused_link :
    let setup : SessionSetup :=
      { settings := { root := some "a" }
        plan := { fixedEnds := [some ⟨.linkFailure, "refused"⟩] } }
    let session : Session := { (sessionA "").session with plan := setup.plan }
    let w : Workshop := { sessionA "" with session }
    let contents := [fileA "fn f() void {}\n", fileA "fn f() void \x7b\n"]
    let u := (w.reviseAll "a" contents).begun "a" (fileA "fn f() void {}\n")
    setup.settings.root = some "a" ∧
    Toolchain.createSession { search := .error (.notFound []) } setup =
      (.ok session, (sessionA "").toolchain) ∧
    (w.events "a" contents).map (·.cycle) = [1, 2] ∧
    (w.reviseAll "a" contents).session.log = {} ∧
    ∃ event, w.events "a" (contents ++ [fileA "fn f() void {}\n"]) =
        w.events "a" contents ++ [event] ∧ event.cycle = 3 ∧
      Tells event.outcome (failuresIn (u.cycleHistory "a")) ((u.compile ["a"]).1.link 3).1
        (notedIn (u.cycleHistory "a")) := by
  intro setup session w contents u
  have hroot : setup.settings.root = some "a" := rfl
  have hcreate : Toolchain.createSession { search := .error (.notFound []) } setup =
      (.ok session, (sessionA "").toolchain) := rfl
  obtain ⟨hnumbers, hquiet, hnext⟩ :=
    each_cycle_is_reported_once hroot hcreate (fileA "") contents
  obtain ⟨event, hevent, hcycle, htells, -⟩ := hnext (fileA "fn f() void {}\n")
  exact ⟨hroot, hcreate, hnumbers, hquiet, event, hevent, hcycle, htells⟩

end Workshop

end IncrementalBuild
