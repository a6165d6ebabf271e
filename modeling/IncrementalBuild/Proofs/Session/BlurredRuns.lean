import IncrementalBuild.Proofs.Session.Blurred
import IncrementalBuild.Proofs.Session.Reporting

/-!
# Cycles out of focus

Two sessions that look alike through a blur and wait are shown the same contents of their files, one
after the other. They look alike after each cycle and report the same, except that each counts its
own cycles.
-/

set_option autoImplicit false

namespace IncrementalBuild

variable {b : Blur}

namespace Workshop

variable {w w' : Workshop} {root : String} {setup : SessionSetup}

/-! ## The tasks of a cycle -/

theorem compile_blur_eq (hb : b.Suits w) (hb' : b.Suits w') (hsame : w.blur b = w'.blur b)
    (paths : List String) :
    (w.compile paths).1.blur b = (w'.compile paths).1.blur b ∧
      (w.compile paths).2 = (w'.compile paths).2 := by
  have halike := (respects_runTask b).runGroup groupName BuildTask.depth
    (rfl : (paths.map BuildTask.rebuild).map (·.blur b) = _) hb hb' hsame
  have hforgot : ((runGroup groupName runTask BuildTask.depth (paths.map .rebuild)
        w).state.modify Session.forget).blur b =
      ((runGroup groupName runTask BuildTask.depth (paths.map .rebuild)
        w').state.modify Session.forget).blur b := by
    have hforget (v : Workshop) : (v.modify Session.forget).blur b =
        (v.blur b).modify Session.forget :=
      congrArg (Workshop.mk · (v.toolchain.blur b) v.files) (v.session.forget_blur b)
    rw [hforget, hforget]
    exact congrArg (·.modify Session.forget) halike.state
  unfold compile
  dsimp only
  rw [halike.verdict]
  split
  · exact ⟨congrArg (·.modify ({ · with phase := .awaitingStart })) hforgot, rfl⟩
  · exact ⟨hforgot, rfl⟩

/-! ## The link -/

theorem nativeRuntime_blur (t : Toolchain) :
    (t.blur b).nativeRuntime = (t.nativeRuntime.1, t.nativeRuntime.2.blur b) := by
  obtain ⟨_, _, _, native⟩ := t
  cases native <;> rfl

theorem linkInput_blur (w : Workshop) :
    (w.blur b).linkInput = (w.linkInput.1, w.linkInput.2.blur b) := by
  unfold linkInput
  dsimp only
  rw [show (w.blur b).session.settings = w.session.settings from rfl,
    show (w.blur b).toolchain = w.toolchain.blur b from rfl, nativeRuntime_blur]
  split <;> rfl

theorem writeCommand_blur (w : Workshop) :
    (w.blur b).writeCommand = (w.writeCommand.1, w.writeCommand.2.blur b) := by
  unfold writeCommand
  rw [show (w.blur b).session.plan = w.session.plan from rfl, linkInput_blur]
  obtain ⟨input, v⟩ := w.linkInput
  split
  · cases input with
    | error e => rfl
    | ok input =>
      have hnoted := v.session.note_blur (b := b) (.command (input.command journalProgram))
      exact congrArg (fun s => (Except.ok (), Workshop.mk s (v.toolchain.blur b) v.files))
        hnoted.symm
  · rfl

theorem useLinker_blur (w : Workshop) :
    (w.blur b).useLinker = (w.useLinker.1, w.useLinker.2.blur b) := by
  unfold useLinker
  rw [show (w.blur b).session.plan = w.session.plan from rfl, linkInput_blur]
  cases w.session.plan.linker with
  | none => rfl
  | some linker =>
    dsimp only
    rw [show (w.blur b).session.settings = w.session.settings from rfl]
    split <;> rfl

theorem decideLink_blur (w : Workshop) :
    (w.blur b).decideLink = (w.decideLink.1, w.decideLink.2.blur b) := by
  unfold decideLink
  rw [show (w.blur b).session.plan = w.session.plan from rfl, useLinker_blur]
  cases w.session.plan.fixedEnds with
  | nil => rfl
  | cons ending rest =>
    cases ending with
    | some e => rfl
    | none =>
      let begun : Workshop :=
        w.modify fun s => { s with plan := { s.plan with fixedEnds := rest } }
      exact useLinker_blur begun

/-- A link that is tried through a blur ends as it does. -/
theorem link_blur (w : Workshop) (cycle : Nat) :
    (w.blur b).link 0 = ((w.link cycle).1, (w.link cycle).2.blur b) := by
  have hnoted : (w.session.blur b).note (.link 0 (w.session.blur b).linkables
        (w.session.settings.outputPath w.session.workingDir)) =
      (w.session.note (.link cycle w.session.linkables
        (w.session.settings.outputPath w.session.workingDir))).blur b := by
    rw [Session.linkables_blur, Session.note_blur]
    rfl
  unfold link
  extract_lets v' v
  have hbegun : v' = v.blur b :=
    congrArg (fun s : Session => Workshop.mk
      { s with hasTempDir := w.session.hasTempDir || w.session.plan.usesTempDir }
      (w.toolchain.blur b) w.files) hnoted
  rw [hbegun, writeCommand_blur]
  obtain ⟨written, u⟩ := v.writeCommand
  cases written with
  | error e => rfl
  | ok _ => exact decideLink_blur u

/-! ## A whole cycle -/

theorem finish_blur_eq (hsame : w.blur b = w'.blur b) (compiled : Except BuildError Nat) :
    (w.finish compiled).1.blur b = (w'.finish compiled).1.blur b ∧
      (w.finish compiled).2.outcome = (w'.finish compiled).2.outcome := by
  have hlink : ((w.link (w.session.cycle + 1)).1, (w.link (w.session.cycle + 1)).2.blur b) =
      ((w'.link (w'.session.cycle + 1)).1, (w'.link (w'.session.cycle + 1)).2.blur b) := by
    rw [← link_blur, ← link_blur, hsame]
  have hlog : w.session.log = w'.session.log := congrArg (fun v => v.session.log) hsame
  rw [finish_event, finish_event, congrArg Prod.fst hlink, hlog]
  refine ⟨?_, rfl⟩
  cases compiled with
  | error e =>
    exact congrArg (·.modify fun s =>
      { s with log := {}, types := s.types.reclaim, phase := .awaitingStart }) hsame
  | ok n =>
    exact congrArg (·.2.modify fun s =>
      { s with log := {}, types := s.types.reclaim, phase := .awaitingStart }) hlink

theorem runCycle_blur_eq (hb : b.Suits w) (hb' : b.Suits w') (hsame : w.blur b = w'.blur b)
    (root : String) :
    (w.runCycle [root]).1.blur b = (w'.runCycle [root]).1.blur b ∧
      (w.runCycle [root]).2.outcome = (w'.runCycle [root]).2.outcome := by
  obtain ⟨hcompiled, hverdict⟩ := compile_blur_eq hb hb' hsame [root]
  unfold runCycle
  dsimp only
  rw [hverdict]
  exact finish_blur_eq hcompiled _

theorem runCycle_generator (w : Workshop) (root : String) :
    (w.runCycle [root]).1.toolchain.generator = w.toolchain.generator := by
  have hkeeps : GroupRun.Keeps runTask (fun _ => True)
      fun v => v.toolchain.generator = w.toolchain.generator := by
    intro task v _ hv
    exact ⟨(runTask_generator task v).trans hv, fun _ _ => trivial⟩
  have hgroup : (runGroup groupName runTask BuildTask.depth ([root].map .rebuild)
      w).state.toolchain.generator = w.toolchain.generator :=
    hkeeps.runGroup (fun _ _ => trivial) rfl
  have hcompile : (w.compile [root]).1.toolchain.generator = w.toolchain.generator := by
    unfold compile
    dsimp only
    split <;> exact hgroup
  unfold runCycle finish
  dsimp only
  cases (w.compile [root]).2 with
  | error e => exact hcompile
  | ok n => exact (congrArg (fun t => t.generator) (link_searched _ _)).trans hcompile

/-! ## Sessions that wait -/

end Workshop

theorem Session.Awaits.live {s : Session} {setup : SessionSetup} (h : s.Awaits setup) :
    s.isCancelled = false := by
  rcases h.waits with ⟨-, hlive⟩ | ⟨-, hphase⟩
  · exact hlive
  · unfold isCancelled
    rw [hphase]
    rfl

theorem Session.phase_blur {s : Session} (hlive : s.isCancelled = false) :
    s.phase.blur = .awaitingStart := by
  refine if_neg fun hcancelled => ?_
  unfold isCancelled at hlive
  rw [hcancelled] at hlive
  cases hlive

namespace Workshop

variable {w w' : Workshop} {root : String} {setup : SessionSetup}

/-- To begin a cycle is not seen through a blur. -/
theorem begun_blur (hlive : w.session.isCancelled = false) (root : String) (files : FileTree) :
    (w.begun root files).blur b = { w.blur b with files } := by
  have htoolchain : (w.begun root files).toolchain.blur b = w.toolchain.blur b :=
    Toolchain.blur_eq b (begun_searched w root files)
  have hsession : (w.begun root files).session.blur b =
      { w.session.blur b with phase := .awaitingStart } := by
    unfold begun
    split <;> rfl
  have hfiles : (w.begun root files).files = files := by
    unfold begun
    split <;> rfl
  unfold Workshop.blur
  rw [hsession, htoolchain, hfiles, ← Session.phase_blur hlive]
  rfl

/-- Two sessions that wait and look alike are shown the same contents of their files, one after the
other. They look alike after that, and report the same, each with its own numbers of cycles. -/
theorem events_blur_eq (hb : b.Suits w) (hb' : b.Suits w') (hsame : w.blur b = w'.blur b)
    (h : w.session.Awaits setup) (h' : w'.session.Awaits setup)
    (hroot : setup.settings.root = some root) {n : Nat}
    (hcycle : w'.session.cycle = w.session.cycle + n) (contents : List FileTree) :
    (w'.reviseAll root contents).blur b = (w.reviseAll root contents).blur b ∧
      w'.events root contents =
        (w.events root contents).map fun e => { e with cycle := e.cycle + n } := by
  induction contents generalizing w w' with
  | nil => exact ⟨hsame.symm, rfl⟩
  | cons files contents ih =>
    obtain ⟨hsettled, -, -, hsettings, -, -, hrun, hawaits⟩ := begun_of_awaits h hroot files
    obtain ⟨hsettled', -, -, hsettings', -, -, hrun', hawaits'⟩ := begun_of_awaits h' hroot files
    have hbegun : (w.begun root files).blur b = (w'.begun root files).blur b := by
      rw [begun_blur h.live, begun_blur h'.live, hsame]
    have hsuits : b.Suits (w.begun root files) :=
      hb.of_eq (congrArg (fun t => t.generator) (begun_searched w root files))
        (hsettings.trans h.settings.symm)
    have hsuits' : b.Suits (w'.begun root files) :=
      hb'.of_eq (congrArg (fun t => t.generator) (begun_searched w' root files))
        (hsettings'.trans h'.settings.symm)
    obtain ⟨hstate, houtcome⟩ := runCycle_blur_eq hsuits hsuits' hbegun root
    have hnumber := (runCycle_event hsettled.quiet root).1
    have hnumber' := (runCycle_event hsettled'.quiet root).1
    have hnext := (runCycle_leaves (w.begun root files) root).1
    have hnext' := (runCycle_leaves (w'.begun root files) root).1
    rw [(begun_reports w root files).1] at hnumber hnext
    rw [(begun_reports w' root files).1, hcycle, Nat.add_right_comm] at hnumber' hnext'
    have hlast : ((w'.begun root files).runCycle [root]).2 =
        { ((w.begun root files).runCycle [root]).2 with
          cycle := ((w.begun root files).runCycle [root]).2.cycle + n } := by
      rw [hnumber]
      exact congrArg₂ BuildEvent.mk hnumber' houtcome.symm
    have hrest := ih (hsuits.of_eq (runCycle_generator _ root) (runCycle_settles _ [root]).2.1)
      (hsuits'.of_eq (runCycle_generator _ root) (runCycle_settles _ [root]).2.1) hstate hawaits
      hawaits' (by rw [hnext', hnext])
    refine ⟨?_, ?_⟩
    · unfold reviseAll
      rw [List.foldl_cons, List.foldl_cons, hrun, hrun']
      exact hrest.1
    · rw [events, events, hrun, hrun', List.map_append, hrest.2, hlast]
      rfl

end Workshop

end IncrementalBuild
