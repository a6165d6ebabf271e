import IncrementalBuild.Proofs.Session.Settled

/-!
# When a cycle reports success

A cycle over a settled session reports success exactly if it takes the revision of its file, the
analyzer accepts the blocks that run at build time, each exported declaration that is new is
found to be a prototype or a function whose code can be generated, and the link succeeds.
-/

set_option autoImplicit false

namespace IncrementalBuild

/-- A finding is good: it is a prototype, or a function whose code can be generated. -/
def Finding.Good (generator : CodeGenerator) : Finding → Prop
  | .prototype _ => True
  | .function _ call => generator call = .done
  | _ => False

/-- What a declaration is found to be is good if nothing is reported and nothing fails. -/
theorem Decl.good_finding {d : Decl} {analyzer : Analyzer} {generator : CodeGenerator} :
    (d.finding analyzer).Good generator ↔ (d.finding analyzer).problems = [] ∧
      (d.finding analyzer).outcome = .done ∧
      ∀ call ∈ (d.finding analyzer).calls, generator call = .done := by
  unfold finding
  cases hmeaning : d.item.meaning? with
  | none =>
    have hproblems : d.item.problems d.file ≠ [] := by
      intro hnil
      have hsome := (d.item.problems_eq_nil d.file).1 hnil
      rw [hmeaning] at hsome
      cases hsome
    simp [Finding.Good, Finding.problems, hproblems]
  | some signature =>
    dsimp only
    cases d.item.body with
    | none => simp [Finding.Good, Finding.problems, Finding.outcome, Finding.calls]
    | some body =>
      dsimp only
      cases analyzer (d.request signature.1 signature.2 body) <;>
        simp [Finding.Good, Finding.problems, Finding.outcome, Finding.calls]

namespace BuildTask

variable {analyzer : Analyzer} {exports : ExportTable} {tasks : List BuildTask}

/-- If tasks report nothing, then none of them does, whatever symbols are in use. -/
theorem exists_reports_eq_nil (h : reportsOf analyzer exports tasks = []) :
    ∀ t ∈ tasks, ∃ exports', t.reports analyzer exports' = [] := by
  induction tasks generalizing exports with
  | nil => simp
  | cons t tasks ih =>
    rw [reportsOf, List.append_eq_nil_iff] at h
    intro t' ht'
    rcases List.mem_cons.1 ht' with rfl | htail
    · exact ⟨exports, h.1⟩
    · exact ih h.2 t' htail

/-- Tasks report nothing if they claim different symbols that are not in use, and those that
claim none report nothing. -/
theorem reportsOf_eq_nil (hnodup : ((tasks.filterMap claims?).map (·.symbol)).Nodup)
    (hfree : ∀ symbol ∈ (tasks.filterMap claims?).map (·.symbol), symbol ∉ exports.inUse)
    (hother : ∀ t ∈ tasks, t.claims? = none → ∀ exports, t.reports analyzer exports = []) :
    reportsOf analyzer exports tasks = [] := by
  induction tasks generalizing exports with
  | nil => rfl
  | cons t tasks ih =>
    obtain ⟨hown, hrest⟩ := List.forall_mem_cons.1 hother
    rw [reportsOf, List.append_eq_nil_iff]
    cases hclaims : t.claims? with
    | none =>
      have hexports : t.exportsAfter exports = exports := by
        cases t with
        | claim ticket d => cases hclaims
        | _ => rfl
      rw [List.filterMap_cons, hclaims] at hnodup hfree
      rw [hexports]
      exact ⟨hown hclaims exports, ih hnodup hfree hrest⟩
    | some d =>
      obtain ⟨ticket, rfl⟩ : ∃ ticket, t = .claim ticket d := by
        cases t with
        | claim ticket d' =>
          cases hclaims
          exact ⟨ticket, rfl⟩
        | _ => cases hclaims
      rw [List.filterMap_cons, hclaims] at hnodup hfree
      dsimp only at hnodup hfree
      rw [List.map_cons, List.nodup_cons] at hnodup
      have hentry : exports.entry? d.symbol = none := by
        have hnew := hfree d.symbol (List.mem_cons_self ..)
        unfold ExportTable.inUse at hnew
        unfold ExportTable.entry?
        simpa using hnew
      have hclaim : exports.claim ticket d =
          (none, { exports with entries := exports.entries ++ [⟨ticket, d⟩] }) := by
        rw [ExportTable.claim, hentry]
      refine ⟨?_, ih hnodup.2 (fun symbol hsymbol hused => ?_) hrest⟩
      · rw [reports, hclaim]
        rfl
      · rw [exportsAfter, hclaim] at hused
        unfold ExportTable.inUse at hused
        rw [List.map_append, List.mem_append] at hused
        rcases hused with hused | hused
        · exact hfree symbol (List.mem_cons_of_mem _ hsymbol) hused
        · obtain rfl : symbol = d.symbol := by simpa using hused
          exact hnodup.1 hsymbol

end BuildTask

namespace Workshop

variable {w : Workshop} {root text : String} {changes : List Change}

/-- What a cycle reports: how its tasks and its link ended, and the problems that were noted. -/
theorem finish_event (w : Workshop) (compiled : Except BuildError Nat) :
    (w.finish compiled).2 =
      { cycle := w.session.cycle + 1
        outcome := outcome (compiled.bind fun _ => (w.link (w.session.cycle + 1)).1)
          w.session.log } := by
  have hlog : (w.link (w.session.cycle + 1)).2.session.log = w.session.log :=
    congrArg (fun s => s.log) (link_unlinked w (w.session.cycle + 1))
  unfold finish
  cases compiled with
  | error e => rfl
  | ok n =>
    dsimp only
    rw [hlog]
    rfl

/-- A cycle reports success if its tasks and its link do not fail and no problem was noted. -/
theorem finish_ok_iff (w : Workshop) (compiled : Except BuildError Nat) :
    (w.finish compiled).2.outcome = .ok ↔
      (∃ n, compiled = .ok n) ∧ (w.link (w.session.cycle + 1)).1 = .ok () ∧
        w.session.log.entries = [] := by
  rw [finish_event]
  cases compiled with
  | error e => simp [outcome, Except.bind]
  | ok n =>
    cases (w.link (w.session.cycle + 1)).1 with
    | error e => simp [outcome, Except.bind]
    | ok u =>
      unfold outcome DiagnosticLog.isEmpty
      cases w.session.log.entries <;> simp [Except.bind]

theorem compile_ok_iff (w : Workshop) (root : String) :
    (∃ n, (w.compile [root]).2 = .ok n) ↔
      (runGroup groupName runTask BuildTask.depth [.rebuild root] w).errors = [] := by
  unfold compile GroupRun.verdict
  dsimp only
  rw [List.map_singleton]
  cases (runGroup groupName runTask BuildTask.depth [.rebuild root] w).errors with
  | nil => simp
  | cons e rest => simp

/-- When the tasks of a cycle are done, what was noted is on record, and what they report. -/
theorem compile_log {names : Interner} {file : SourceFile} {problems : List Diagnostic}
    (hs : w.session.Settled)
    (h : Rebuilt w.session names file changes problems (w.rebuild root)) :
    (w.compile [root]).1.session.log.entries = problems ++
      BuildTask.reportsOf w.session.analyzer (w.rebuild root).state.session.exports
        (w.rebuild root).spawned := by
  have hcompiled := compiled_of_rebuilt hs h
  obtain ⟨phase, hsession⟩ := compile_session w [root]
  rw [hsession]
  change (runGroup groupName runTask BuildTask.depth [.rebuild root] w).state.session.log.entries = _
  rw [hcompiled.log, hs.quiet]
  rfl

/-- A revision is accepted: so are its blocks that run at build time, and what its new exported
declarations are found to be is good. -/
structure Accepts (w : Workshop) (path text : String) (changes : List Change) : Prop where
  comptime : ∀ block, .runComptime block ∈ changes →
    w.session.analyzer (comptimeRequest ((parse text).file path text) block) = .accepted
  good : ∀ d ∈ exported (Change.made (w.namesAfter text) ((parse text).file path text)
      w.session.nextDecl changes),
    (d.finding w.session.analyzer).Good w.toolchain.generator

/-- A cycle that reports success has taken and accepted a revision. -/
theorem takes_of_ok (hs : w.session.Settled) (hok : (w.runCycle [root]).2.outcome = .ok) :
    ∃ text changes, w.Takes root text changes ∧ w.Accepts root text changes := by
  obtain ⟨hcompile, -, hquiet⟩ :=
    (finish_ok_iff (w.compile [root]).1 (w.compile [root]).2).1 hok
  obtain ⟨names, file, changes, problems, hrebuilt, hrevision⟩ :=
    exists_rebuilt hs.nodup root
  have hcompiled := compiled_of_rebuilt hs hrebuilt
  rw [compile_ok_iff] at hcompile
  rw [compile_log hs hrebuilt] at hquiet
  obtain ⟨hproblems, hreports⟩ := List.append_eq_nil_iff.1 hquiet
  obtain ⟨hdone, hends, hcalls⟩ := hcompiled.errors.1 hcompile
  obtain ⟨text, rfl, rfl, htakes⟩ := hrevision hdone hproblems
  have hsilent := BuildTask.exists_reports_eq_nil hreports
  refine ⟨text, changes, htakes, fun block hblock => ?_, fun d hd => ?_⟩
  · have hmem : .runComptime ((parse text).file root text) block ∈ (w.rebuild root).spawned := by
      rw [hrebuilt.spawned]
      exact Change.runComptime_mem_tasks hblock
    obtain ⟨exports, hreport⟩ := hsilent _ hmem
    have hend := hends _ hmem
    unfold BuildTask.reports at hreport
    unfold BuildTask.ends at hend
    dsimp only at hreport hend
    cases hverdict : w.session.analyzer (comptimeRequest ((parse text).file root text) block) with
    | accepted => rfl
    | rejected code message => simp [hverdict] at hreport
    | crashed message => simp [hverdict] at hend
  · have hmem : .resolve d ∈ (w.rebuild root).spawned := by
      rw [← BuildTask.mem_resolved, hrebuilt.spawned, Change.resolved_tasks]
      exact hd
    obtain ⟨exports, hreport⟩ := hsilent _ hmem
    exact Decl.good_finding.2 ⟨hreport, hends _ hmem, hcalls d hd⟩

section

variable {problems : List Diagnostic} (haccepts : w.Accepts root text changes)
  (h : Rebuilt w.session (w.namesAfter text) ((parse text).file root text) changes problems
    (w.rebuild root))
include haccepts h

/-- A task that an accepted revision spawns is a claim, or it is done and has nothing to report. -/
theorem Accepts.spawned_cases {t : BuildTask} (ht : t ∈ (w.rebuild root).spawned) :
    (∃ ticket d, t = .claim ticket d) ∨
      t.ends w.session.analyzer w.toolchain.generator = .done ∧
        ∀ exports, t.reports w.session.analyzer exports = [] := by
  have htask := ht
  rw [h.spawned] at htask
  rcases Change.mem_tasks htask with ⟨block, hblock, rfl⟩ | ⟨ticket, d, rfl⟩ | ⟨d, rfl⟩
  · right
    unfold BuildTask.ends BuildTask.reports
    dsimp only
    rw [haccepts.comptime block hblock]
    exact ⟨rfl, fun _ => rfl⟩
  · exact .inl ⟨ticket, d, rfl⟩
  · rw [← BuildTask.mem_resolved, h.spawned, Change.resolved_tasks] at ht
    obtain ⟨hproblems, houtcome, -⟩ := Decl.good_finding.1 (haccepts.good d ht)
    exact .inr ⟨houtcome, fun _ => hproblems⟩

/-- The tasks that an accepted revision spawns report nothing if its names are new. -/
theorem Accepts.reports_eq_nil (hs : w.session.Settled) (htakes : w.Takes root text changes) :
    BuildTask.reportsOf w.session.analyzer (w.rebuild root).state.session.exports
      (w.rebuild root).spawned = [] := by
  have hsymbols : (((w.rebuild root).spawned.filterMap BuildTask.claims?).map (·.symbol)).Sublist
      (Change.addedNames changes) := by
    rw [h.spawned, Change.claimed_tasks, ← Change.map_symbol_made]
    exact List.filter_sublist.map _
  apply BuildTask.reportsOf_eq_nil
  · exact (htakes.distinct.sublist (List.sublist_append_right _ _)).sublist hsymbols
  · intro symbol hsymbol hused
    unfold ExportTable.inUse at hused
    rw [h.entries] at hused
    exact List.disjoint_of_nodup_append htakes.distinct (hs.claimed symbol hused)
      (hsymbols.subset hsymbol)
  · intro t ht hclaims
    rcases haccepts.spawned_cases h ht with ⟨ticket, d, rfl⟩ | ⟨-, hreports⟩
    · cases hclaims
    · exact hreports

end

/-- A cycle that takes and accepts a revision reports success if its link succeeds. -/
theorem ok_of_takes (hs : w.session.Settled) (hlive : w.session.isCancelled = false)
    (htakes : w.Takes root text changes) (haccepts : w.Accepts root text changes)
    (hlink : ∀ cycle, ((w.compile [root]).1.link cycle).1 = .ok ()) :
    (w.runCycle [root]).2.outcome = .ok := by
  obtain ⟨hdone, hrebuilt⟩ := htakes.rebuilt hlive
  refine (finish_ok_iff (w.compile [root]).1 (w.compile [root]).2).2 ⟨?_, hlink _, ?_⟩
  · rw [compile_ok_iff, (compiled_of_rebuilt hs hrebuilt).errors]
    refine ⟨hdone, fun t ht => ?_, fun d hd => ?_⟩
    · rcases haccepts.spawned_cases hrebuilt ht with ⟨ticket, d, rfl⟩ | ⟨hends, -⟩
      · rfl
      · exact hends
    · exact (Decl.good_finding.1 (haccepts.good d hd)).2.2
  · rw [compile_log hs hrebuilt, haccepts.reports_eq_nil hrebuilt hs htakes]
    rfl

end Workshop

end IncrementalBuild
