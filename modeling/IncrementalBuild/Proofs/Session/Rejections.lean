import IncrementalBuild.Proofs.Session.BlurredRuns
import IncrementalBuild.Proofs.Session.Waiting

/-!
# Contents that are rejected

Contents over the size limit, that are no text or that have a syntax error are rejected: the rebuild
notes one problem and spawns nothing. The cycle over them has no other task. It still links what
there is to link, counts itself and keeps the names it read, and that is all it leaves. So the
cycles after it go as if it had never run.
-/

set_option autoImplicit false

namespace IncrementalBuild

namespace Workshop

variable {w v : Workshop} {root path : String} {files : FileTree} {problem : Diagnostic}

/-- What a path leads to is rejected for a problem: it is too big, no text, or a text with a syntax
error. -/
inductive Rejected (files : FileTree) (limit : Nat) (path : String) : Diagnostic → Prop where
  | tooBig {bytes : ByteArray} {isExecutable : Bool} :
      files.find path = .ok (.file bytes isExecutable) → limit < bytes.size →
      Rejected files limit path (sizeProblem path bytes.size limit)
  | notText {bytes : ByteArray} {isExecutable : Bool} {offset : Nat} :
      files.find path = .ok (.file bytes isExecutable) → ¬limit < bytes.size →
      decode bytes = .error offset →
      Rejected files limit path (encodingProblem path offset)
  | invalid {bytes : ByteArray} {isExecutable : Bool} {text : String} {e : SyntaxError} :
      files.find path = .ok (.file bytes isExecutable) → ¬limit < bytes.size →
      decode bytes = .ok text → (parse text).error = some e →
      Rejected files limit path (.ofSyntaxError ((parse text).file path text) e)

/-! ## The cycle over them -/

/-- A rebuild of rejected contents notes the problem, and may have read names and told tokens. -/
theorem rebuild_rejected (hlive : w.session.isCancelled = false)
    (h : Rejected w.files w.session.settings.maxSourceSize path problem) :
    ∃ names told, w.rebuild path =
      { state := w.modify fun s => { s with names, told }.report problem } := by
  cases h with
  | tooBig hfind hsize =>
    refine ⟨w.session.names, w.session.told, rebuild_eq_refused hlive ?_⟩
    unfold readSource
    rw [hfind]
    exact if_pos hsize
  | notText hfind hsize hdecode =>
    refine ⟨w.session.names, w.session.told, rebuild_eq_refused hlive ?_⟩
    unfold readSource
    rw [hfind]
    dsimp only
    rw [if_neg hsize, hdecode]
  | invalid hfind hsize hdecode herror =>
    refine ⟨_, _, rebuild_eq_report hlive ?_ herror⟩
    unfold readSource
    rw [hfind]
    dsimp only
    rw [if_neg hsize, hdecode]

/-- If the rebuild goes well and spawns nothing, it is the only task of its cycle. -/
theorem compile_of_rebuild (h : w.rebuild root = { state := v }) :
    w.cycleHistory root = [⟨w, .rebuild root⟩] ∧
      w.compile [root] =
        ((v.modify Session.forget).modify ({ · with phase := .linking }), .ok 1) := by
  have hstep : GroupRun.step groupName runTask { state := w } (.rebuild root) =
      { state := v, ran := 1 } := by
    unfold GroupRun.step runTask
    dsimp only
    rw [h]
    rfl
  have hrun : runGroup groupName runTask BuildTask.depth ([root].map .rebuild) w =
      { state := v, ran := 1 } := by
    unfold runGroup BuildTask.depth
    rw [GroupRun.drain_succ]
    exact congrArg (GroupRun.drain groupName runTask 2) hstep
  refine ⟨?_, ?_⟩
  · rw [cycleHistory_eq]
    unfold followUps deliveries
    rw [h]
    rfl
  · unfold compile
    rw [hrun]
    rfl

/-- A cycle over rejected contents has one task and notes one problem. -/
theorem compile_rejected (hlive : w.session.isCancelled = false)
    (hreferred : ∀ x ∈ w.session.resolutions, w.session.refersTo x.1 = true)
    (h : Rejected w.files w.session.settings.maxSourceSize root problem) :
    w.cycleHistory root = [⟨w, .rebuild root⟩] ∧ notedIn (w.cycleHistory root) = [problem] ∧
      ∃ names told, w.compile [root] =
        (w.modify fun s => { { s with names, told }.report problem with phase := .linking },
          .ok 1) := by
  obtain ⟨names, told, hrebuild⟩ := rebuild_rejected hlive h
  obtain ⟨hhistory, hcompile⟩ := compile_of_rebuild hrebuild
  have hkept : ({ w.session with names, told }.report problem).forget =
      { w.session with names, told }.report problem := Session.forget_eq_of_referred hreferred
  have hcompile' : w.compile [root] =
      (w.modify fun s => { { s with names, told }.report problem with phase := .linking },
        .ok 1) := by
    rw [hcompile]
    unfold modify
    dsimp only
    rw [hkept]
  have hnoted := (compile_notes w root).1
  rw [hcompile'] at hnoted
  exact ⟨hhistory, (List.append_cancel_left hnoted).symm, names, told, hcompile'⟩

section

variable (hlive : w.session.isCancelled = false)
  (hreferred : ∀ x ∈ w.session.resolutions, w.session.refersTo x.1 = true)
  (hlog : w.session.log = {})
  (h : Rejected w.files w.session.settings.maxSourceSize root problem)

include hlive hreferred hlog h

/-- What such a cycle reports: the problem, unless the link fails. -/
theorem runCycle_rejected_event :
    (w.runCycle [root]).2 =
      { cycle := w.session.cycle + 1
        outcome := outcome ((w.compile [root]).1.link (w.session.cycle + 1)).1 ⟨[problem]⟩ } := by
  obtain ⟨-, hnoted, names, told, hcompile⟩ := compile_rejected hlive hreferred h
  obtain ⟨hcycle, houtcome⟩ := runCycle_event hlog root
  have hverdict := compile_verdict w root
  rw [hcompile] at hverdict
  cases hfailures : failuresIn (w.cycleHistory root) with
  | nil =>
    rw [hfailures, hnoted] at houtcome
    exact congrArg₂ BuildEvent.mk hcycle houtcome
  | cons e rest =>
    rw [hfailures] at hverdict
    cases hverdict

/-- A session in which no type waits is left by such a cycle as it was, but for its place in its
life and its records. -/
theorem runCycle_rejected (hqueue : w.session.types.queue = []) :
    (∃ names told journal plan hasTempDir, (w.runCycle [root]).1.session = { w.session with
      phase := .waitingForChange, cycle := w.session.cycle + 1, names, told, journal, plan
      hasTempDir }) ∧
    (w.runCycle [root]).1.toolchain.searched = w.toolchain.searched := by
  obtain ⟨-, -, names, told, hcompile⟩ := compile_rejected hlive hreferred h
  obtain ⟨s, hlinked, hfinish⟩ := finish_session (w.compile [root]).1 (w.compile [root]).2
  have hs : s = { s.unlinked with
      plan := s.plan, hasTempDir := s.hasTempDir, journal := s.journal } := rfl
  refine ⟨⟨names, told, s.journal, s.plan, s.hasTempDir, ?_⟩, ?_⟩
  · unfold runCycle
    dsimp only
    rw [hfinish, hs, hlinked, hcompile]
    exact congrArg₂
      (fun types log => { w.session with
        phase := .waitingForChange, cycle := w.session.cycle + 1, names, told, types, log
        journal := s.journal, plan := s.plan, hasTempDir := s.hasTempDir })
      (TypeStore.reclaim_of_queue hqueue) hlog.symm
  · unfold runCycle
    rw [hcompile]
    exact link_searched _ _

end

/-- To begin a cycle changes only the place of a session in its life and what it watches. -/
theorem begun_session (w : Workshop) (root : String) (files : FileTree) :
    ∃ phase watcher watched, (w.begun root files).session =
      { w.session with isStarted := true, phase, watcher, watched } := by
  unfold begun
  split
  · rename_i hstarted
    have hresumed : ({ w with files }.touch root).2.resumed.session =
        { w.session with
          isStarted := w.session.isStarted, phase := .rebuilding
          watcher := (w.session.watcher.touch root).2.takeChanges.2 } := rfl
    rw [hstarted] at hresumed
    exact ⟨_, _, _, hresumed⟩
  · exact ⟨_, _, _, rfl⟩

/-! ## The cycles after them -/

/-- A session that is not at rest runs no cycle, whatever it is shown. -/
theorem revise_of_not_atRest (hbusy : ¬w.session.AtRest) (root : String) (files : FileTree) :
    (w.revise root files).2 = none := by
  unfold Session.AtRest at hbusy
  push Not at hbusy
  cases hstarted : w.session.isStarted with
  | true =>
    have hphase : ({ w with files }.touch root).2.session.phase ≠ .waitingForChange := hbusy.2
    unfold revise react beginRebuild
    rw [if_pos hstarted, if_neg hphase]
  | false =>
    have hcan : (w.session.isStarted || w.session.isCancelled) = true := by
      simp [hbusy.1 hstarted]
    unfold revise start
    rw [if_neg (by rw [hstarted]; decide), if_pos hcan]

/-- A session at rest awaits contents. -/
theorem Reachable.awaits (h : w.Reachable) (hrest : w.session.AtRest) :
    w.session.Awaits { settings := w.session.settings, analyzer := w.session.analyzer } := by
  refine ⟨h.steady.settled_of_atRest hrest, h.sound_table, h.watchesRoot, rfl, rfl, ?_⟩
  rcases hrest with hidle | hphase
  · exact .inl hidle
  · cases hstarted : w.session.isStarted with
    | true => exact .inr ⟨rfl, hphase⟩
    | false =>
      refine .inl ⟨rfl, ?_⟩
      unfold Session.isCancelled
      rw [hphase]
      rfl

/-- The session before a cycle, with the files and the records that the cycle left: its linker is as
far, and the same was noted and told. -/
def spared (w v : Workshop) (names : Interner) : Workshop :=
  { w with
    session := { w.session with
      names, plan := v.session.plan, hasTempDir := v.session.hasTempDir
      journal := v.session.journal, told := v.session.told }
    files := v.files }

/-- A session behaves like another, as far as can be seen through a blur, except that it has run
some cycles more. -/
def BehavesLike (b : Blur) (root : String) (more : Nat) (v w : Workshop) : Prop :=
  ∀ contents, (v.reviseAll root contents).blur b = (w.reviseAll root contents).blur b ∧
    v.events root contents =
      (w.events root contents).map fun e => { e with cycle := e.cycle + more }

/-- A cycle left nothing but its number and its records: all else is as before. -/
structure LeavesAsIs (w v : Workshop) : Prop where
  session : v.session = { w.session with
    phase := .waitingForChange, isStarted := true, cycle := w.session.cycle + 1
    names := v.session.names, told := v.session.told, journal := v.session.journal
    plan := v.session.plan, hasTempDir := v.session.hasTempDir
    watcher := v.session.watcher, watched := v.session.watched }
  toolchain : v.toolchain.searched = w.toolchain.searched

theorem awaits_spared {setup : SessionSetup} (h : w.session.Awaits setup) (v : Workshop)
    (names : Interner) : (w.spared v names).session.Awaits setup :=
  ⟨h.settled.of_matter rfl, h.sound, h.watches, h.settings, h.analyzer, h.waits⟩

/-- A cycle that leaves all as it is makes no difference to the cycles after it. -/
theorem LeavesAsIs.behavesLike {b : Blur} {setup : SessionSetup} {names : Interner}
    (h : LeavesAsIs w v) (hw : w.session.Awaits setup) (hv : v.session.Awaits setup)
    (hroot : setup.settings.root = some root) (hb : b.Suits w)
    (hnames : b.table v.session.names = b.table names) :
    BehavesLike b root 1 v (w.spared v names) := by
  have hsuits : b.Suits (w.spared v names) := hb.of_eq rfl rfl
  have hsuits' : b.Suits v := hb.of_eq (congrArg (fun t => t.generator) h.toolchain)
    (congrArg (fun s => s.settings) h.session)
  have hcycle : v.session.cycle = w.session.cycle + 1 := congrArg (fun s => s.cycle) h.session
  have hleft : v.session.blur b = { w.session.blur b with
      phase := .awaitingStart, names := b.table v.session.names, told := b.lines v.session.told
      journal := v.session.journal.map (·.unnumbered), plan := v.session.plan
      hasTempDir := v.session.hasTempDir } := congrArg (Session.blur b) h.session
  have hsession : (w.spared v names).session.blur b = v.session.blur b := by
    rw [hleft, hnames, ← Session.phase_blur hw.live]
    rfl
  have htoolchain : w.toolchain.blur b = v.toolchain.blur b :=
    Toolchain.blur_eq b h.toolchain.symm
  have hsame : (w.spared v names).blur b = v.blur b :=
    congrArg₂ (Workshop.mk · · v.files) hsession htoolchain
  exact events_blur_eq hsuits hsuits' hsame (awaits_spared hw v names) hv hroot hcycle

end Workshop

end IncrementalBuild
