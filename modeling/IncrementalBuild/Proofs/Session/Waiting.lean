import IncrementalBuild.Proofs.Session.CleanVerdict
import IncrementalBuild.Proofs.Types.Reclaiming

/-!
# Sessions that wait

Whatever happened to a session, it keeps no resolution of a declaration that nothing refers to.
When it waits, to be started or for changes, it has no problem noted and no type that waits to be
reclaimed. So there is nothing to forget and nothing to reclaim: a cycle that leaves the
declarations alone leaves the resolutions and the types alone as well.
-/

set_option autoImplicit false

namespace IncrementalBuild

theorem TypeStore.reclaim_of_queue {s : TypeStore} (h : s.queue = []) : s.reclaim = s := by
  have hidle : s.objects.any s.isReclaimable = false := by
    rw [List.any_eq_false]
    intro o _
    unfold isReclaimable
    rw [h]
    simp
  rw [reclaim, if_neg (by rw [hidle]; decide), ← h]

namespace Session

/-- The session without its place in its life, its records and what it watches. -/
def matter (s : Session) : Session :=
  { s with
    plan := {}, phase := .awaitingStart, isStarted := false, cycle := 0, names := .empty
    hasTempDir := false, watcher := {}, watched := [], journal := [], told := [], context := none }

theorem Settled.of_matter {s s' : Session} (h : s.Settled) (hsame : s'.matter = s.matter) :
    s'.Settled := by
  have hmatter : s.matter.Settled := ⟨⟨h.balanced.types, h.balanced.keys⟩, h.quiet, h.unresolved,
    h.numbered, h.nodup, h.claimed, h.kept⟩
  rw [← hsame] at hmatter
  exact ⟨⟨hmatter.balanced.types, hmatter.balanced.keys⟩, hmatter.quiet, hmatter.unresolved,
    hmatter.numbered, hmatter.nodup, hmatter.claimed, hmatter.kept⟩

/-- Whether a session is at rest: it may be started, or it waits for changes. -/
def AtRest (s : Session) : Prop :=
  (s.isStarted = false ∧ s.isCancelled = false) ∨ s.phase = .waitingForChange

/-- What holds of a session in every state, between the steps of a cycle too. -/
structure Steady (s : Session) : Prop where
  settled : { s with log := {} }.Settled
  referred : ∀ x ∈ s.resolutions, s.refersTo x.1 = true
  quiet : s.AtRest → s.log = {} ∧ s.types.queue = []

variable {s s' : Session}

theorem Steady.settled_of_atRest (h : s.Steady) (hrest : s.AtRest) : s.Settled := by
  refine h.settled.of_matter ?_
  have hlog := (h.quiet hrest).1
  unfold matter
  rw [hlog]

theorem Steady.of_matter (h : s.Steady) (hsame : s'.matter = s.matter)
    (hrest : s'.AtRest → s.AtRest) : s'.Steady := by
  refine ⟨h.settled.of_matter ?_, fun x hx => ?_, fun hwaits => ?_⟩
  · exact congrArg (fun s => { s with log := {} }) hsame
  · have hresolutions : s'.resolutions = s.resolutions := congrArg (fun s => s.resolutions) hsame
    have htable : s'.table = s.table := congrArg (fun s => s.table) hsame
    have hexports : s'.exports = s.exports := congrArg (fun s => s.exports) hsame
    rw [hresolutions] at hx
    unfold refersTo
    rw [htable, hexports]
    exact h.referred x hx
  · have hlog : s'.log = s.log := congrArg (fun s => s.log) hsame
    have htypes : s'.types = s.types := congrArg (fun s => s.types) hsame
    rw [hlog, htypes]
    exact h.quiet (hrest hwaits)

/-- Where nothing is kept that is not referred to, there is nothing to forget. -/
theorem forget_eq_of_referred (h : ∀ x ∈ s.resolutions, s.refersTo x.1 = true) : s.forget = s := by
  have hkept : (s.resolutions.filter fun x => s.refersTo x.1) = s.resolutions :=
    List.filter_eq_self.2 h
  have hgone : (s.resolutions.filter fun x => !s.refersTo x.1) = [] :=
    List.filter_eq_nil_iff.2 fun x hx => by rw [h x hx]; decide
  unfold forget
  dsimp only
  rw [hkept, hgone]
  rfl

end Session

namespace Workshop

variable {w : Workshop} {root : String}

/-! ## One cycle -/

/-- What the tasks of a cycle leave is referred to. -/
theorem referred_compile (w : Workshop) (paths : List String) :
    ∀ x ∈ (w.compile paths).1.session.resolutions,
      (w.compile paths).1.session.refersTo x.1 = true := by
  obtain ⟨phase, hsession⟩ := compile_session w paths
  rw [hsession]
  intro x hx
  exact (List.mem_filter.1 hx).2

theorem compile_phase (w : Workshop) (paths : List String) :
    (w.compile paths).1.session.phase = .linking ∨
      (w.compile paths).1.session.phase = w.session.phase := by
  have hkeeps : GroupRun.Keeps runTask (fun _ => True)
      fun v => v.session.phase = w.session.phase := by
    intro task v _ hv
    refine ⟨?_, fun _ _ => trivial⟩
    exact (congrArg (fun s => s.phase) (runTask_base task v)).trans hv
  have hgroup : (runGroup groupName runTask BuildTask.depth (paths.map .rebuild)
      w).state.session.phase = w.session.phase := hkeeps.runGroup (fun _ _ => trivial) rfl
  unfold compile
  dsimp only
  split
  · exact .inl rfl
  · exact .inr hgroup

/-- In the middle of a cycle a session is not at rest. -/
theorem steady_compile (h : w.session.Settled) (hstarted : w.session.isStarted = true)
    (hphase : w.session.phase = .rebuilding) (root : String) :
    (w.compile [root]).1.session.Steady := by
  have hstarted' := (compile_inStepWith w [root]).isStarted.trans hstarted
  have hbusy : ¬(w.compile [root]).1.session.AtRest := by
    rintro (⟨hidle, -⟩ | hwaits)
    · rw [hstarted'] at hidle
      cases hidle
    · rcases compile_phase w [root] with hlinking | hrebuilding
      · rw [hlinking] at hwaits
        cases hwaits
      · rw [hrebuilding, hphase] at hwaits
        cases hwaits
  exact ⟨settled_compile h root, referred_compile w [root], fun hrest => absurd hrest hbusy⟩

theorem steady_finish (h : { w.session with log := {} }.Settled)
    (hreferred : ∀ x ∈ w.session.resolutions, w.session.refersTo x.1 = true)
    (compiled : Except BuildError Nat) : (w.finish compiled).1.session.Steady := by
  have hsettled := settled_finish h compiled
  obtain ⟨s, hlinked, hfinish⟩ := finish_session w compiled
  have hresolutions : s.resolutions = w.session.resolutions :=
    congrArg (fun s => s.resolutions) hlinked
  have htable : s.table = w.session.table := congrArg (fun s => s.table) hlinked
  have hexports : s.exports = w.session.exports := congrArg (fun s => s.exports) hlinked
  rw [hfinish] at hsettled ⊢
  refine ⟨hsettled, fun x hx => ?_, fun _ => ⟨rfl, TypeStore.queue_reclaim _⟩⟩
  unfold Session.refersTo at hreferred ⊢
  dsimp only at hx ⊢
  rw [htable, hexports]
  rw [hresolutions] at hx
  exact hreferred x hx

theorem steady_runCycle (h : w.session.Settled) (root : String) :
    (w.runCycle [root]).1.session.Steady :=
  steady_finish (settled_compile h root) (referred_compile w [root]) _

/-! ## All states -/

theorem steady_createSession {t t' : Toolchain} {setup : SessionSetup} {s : Session}
    (h : t.createSession setup = (.ok s, t')) : s.Steady := by
  have hsettled := (createSession_awaits h).settled
  obtain ⟨id, machine, context, rfl⟩ := createSession_eq_ok h
  exact ⟨hsettled, fun x hx => absurd hx List.not_mem_nil, fun _ => ⟨rfl, rfl⟩⟩

theorem steady_start (h : w.session.Steady) : w.start.1.session.Steady := by
  cases hcan : w.session.isStarted || w.session.isCancelled with
  | true =>
    unfold start
    rwa [if_pos hcan]
  | false =>
    have hrest : w.session.AtRest := .inl (Bool.or_eq_false_iff.1 hcan)
    rcases start_cases w with ⟨-, hsame | ⟨isStarted, phase, hsame, -⟩⟩ |
      ⟨root, -, -, -, hstart⟩
    · rwa [hsame]
    · rw [hsame]
      exact h.of_matter rfl fun _ => hrest
    · rw [hstart]
      exact steady_runCycle (settled_opened (h.settled_of_atRest hrest) root) root

/-- A session that sees changes was started, and they are changes of its root file. -/
theorem takeChanges_of_watchesRoot (h : w.session.WatchesRoot) (hsome : w.takeChanges.1 ≠ []) :
    w.session.isStarted = true ∧ ∃ root, w.takeChanges.1 = [root] := by
  constructor
  · cases hstarted : w.session.isStarted with
    | true => rfl
    | false =>
      have hnone : w.session.watched = [] := by
        rw [h.2, Session.watchedRoot?, hstarted]
        rfl
      refine absurd ?_ hsome
      unfold takeChanges
      dsimp only
      rw [hnone]
      exact List.filterMap_eq_nil_iff.2 fun _ _ => rfl
  · rcases h.changes (Watcher.nodup_distinct _) with hnil | ⟨root, -, hone⟩
    · exact absurd hnil hsome
    · exact ⟨root, hone⟩

theorem settled_resume (h : w.session.Steady) (hphase : w.session.phase = .waitingForChange) :
    w.resumed.session.Settled :=
  (h.settled_of_atRest (.inr hphase)).of_matter rfl

theorem steady_react (h : w.session.Steady) (hwatches : w.session.WatchesRoot) :
    w.react.1.session.Steady := by
  rcases react_cases w with ⟨-, queue, hstate⟩ | ⟨hphase, hsome, hreact⟩
  · rw [hstate]
    exact h.of_matter rfl id
  · obtain ⟨-, root, hroot⟩ := takeChanges_of_watchesRoot hwatches hsome
    rw [hreact, hroot]
    exact steady_runCycle (settled_resume h hphase) root

theorem steady_beginRebuild (h : w.session.Steady) (hwatches : w.session.WatchesRoot) :
    w.beginRebuild.1.session.Steady := by
  rcases beginRebuild_cases w with ⟨-, -, queue, hstate⟩ | ⟨hphase, hsome, hbegin⟩
  · rw [hstate]
    exact h.of_matter rfl id
  · obtain ⟨hstarted, root, hroot⟩ := takeChanges_of_watchesRoot hwatches hsome
    rw [hbegin, hroot]
    exact steady_compile (settled_resume h hphase) hstarted rfl root

theorem steady_teardown (h : w.session.Steady) : w.teardown.session.Steady := by
  unfold teardown
  split
  · exact h
  · -- A cycle that ends reclaims the same types.
    have hsettled := settled_finish h.settled (.error .cancelled)
    refine ⟨hsettled.of_matter rfl, h.referred, fun hrest => ?_⟩
    rcases hrest with ⟨-, hlive⟩ | hwaits
    · cases hlive
    · cases hwaits

/-- What holds of a session in every state holds in every state that can be reached. -/
theorem Reachable.steady (h : w.Reachable) : w.session.Steady := by
  induction h with
  | created files hcreate => exact steady_createSession hcreate
  | outside _ _ _ ih => exact ih
  | start _ ih => exact steady_start ih
  | touch path _ ih => exact ih.of_matter rfl id
  | react hreachable ih => exact steady_react ih hreachable.watchesRoot
  | beginRebuild hreachable ih => exact steady_beginRebuild ih hreachable.watchesRoot
  | finish compiled _ ih => exact steady_finish ih.settled ih.referred compiled
  | takeJournal _ ih => exact ih.of_matter rfl id
  | teardown _ ih => exact steady_teardown ih

end Workshop

end IncrementalBuild
