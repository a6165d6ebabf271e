import IncrementalBuild.Proofs.Session.Verdict

/-!
# Success after many revisions and success from scratch

A session is shown contents of its files, one after the other, and runs a cycle over each. If
the last of these reports success, a new session that is shown the last content alone reports
success exactly if every exported declaration that is live in the old session is built. That
is not always so: a declaration that failed and is left alone afterwards is not reported
again.
-/

set_option autoImplicit false

namespace IncrementalBuild

namespace Workshop

/-- A session is shown new contents of its files. It builds them when it starts, or as a change
of its root file. -/
def revise (w : Workshop) (root : String) (files : FileTree) : Workshop × Option BuildEvent :=
  if w.session.isStarted then ({ w with files }.touch root).2.react else { w with files }.start

/-- The session that has begun the cycle over new contents of its files. -/
def begun (w : Workshop) (root : String) (files : FileTree) : Workshop :=
  if w.session.isStarted then ({ w with files }.touch root).2.resumed
  else { w with files }.opened root

/-- A session is shown contents of its files, one after the other. -/
def reviseAll (w : Workshop) (root : String) (contents : List FileTree) : Workshop :=
  contents.foldl (fun w files => (w.revise root files).1) w

/-- The linker succeeds on whatever a session that starts has compiled. -/
def Links (w : Workshop) (root : String) : Prop :=
  ∀ cycle, (((w.opened root).compile [root]).1.link cycle).1 = .ok ()

end Workshop

/-- A session that was made with a setup and waits: to be started, or for changes. -/
structure Session.Awaits (s : Session) (setup : SessionSetup) : Prop where
  settled : s.Settled
  sound : s.table.Sound
  watches : s.WatchesRoot
  settings : s.settings = setup.settings
  analyzer : s.analyzer = setup.analyzer
  waits : (s.isStarted = false ∧ s.isCancelled = false) ∨
    (s.isStarted = true ∧ s.phase = .waitingForChange)

namespace Workshop

variable {w : Workshop} {setup : SessionSetup} {root : String}

theorem settled_opened (h : w.session.Settled) (root : String) : (w.opened root).session.Settled :=
  ⟨⟨h.balanced.types, h.balanced.keys⟩, h.quiet, h.unresolved, h.numbered, h.nodup, h.claimed,
    h.kept⟩

theorem settled_resumed (h : w.session.Settled) (root : String) :
    (w.touch root).2.resumed.session.Settled :=
  ⟨⟨h.balanced.types, h.balanced.keys⟩, h.quiet, h.unresolved, h.numbered, h.nodup, h.claimed,
    h.kept⟩

/-- A session that was just made waits to be started. -/
theorem createSession_awaits {t t' : Toolchain} {s : Session}
    (h : t.createSession setup = (.ok s, t')) : s.Awaits setup := by
  have hreachable : (⟨s, t', ⟨[]⟩⟩ : Workshop).Reachable := .created _ h
  have hsound := hreachable.sound_table
  have hwatches := hreachable.watchesRoot
  obtain ⟨id, machine, context, rfl⟩ := createSession_eq_ok h
  refine ⟨⟨⟨TypeStore.Sound.initial, List.nodup_nil⟩, rfl, fun _ _ => rfl, ?_, List.nodup_nil, ?_,
    ?_⟩, hsound, hwatches, rfl, rfl, .inl ⟨rfl, rfl⟩⟩
  · exact fun d hd => absurd hd List.not_mem_nil
  · exact fun symbol hsymbol => absurd hsymbol List.not_mem_nil
  · exact fun d hd => absurd hd List.not_mem_nil

/-- After a cycle a session that was started waits for changes. -/
theorem runCycle_awaits (hsettled : w.session.Settled) (hsound : w.session.table.Sound)
    (hsettings : w.session.settings = setup.settings)
    (hanalyzer : w.session.analyzer = setup.analyzer) (hstarted : w.session.isStarted = true)
    (hwatches : (w.runCycle [root]).1.session.WatchesRoot) :
    (w.runCycle [root]).1.session.Awaits setup := by
  obtain ⟨hphase, hsettings', hstarted'⟩ := runCycle_settles w [root]
  exact ⟨settled_runCycle hsettled root, sound_runCycle hsound [root], hwatches,
    hsettings'.trans hsettings, (runCycle_analyzer w [root]).trans hanalyzer,
    .inr ⟨hstarted'.trans hstarted, hphase⟩⟩

/-- A session that waits begins a cycle over the contents it is shown, and waits again after
it. -/
theorem begun_of_awaits (h : w.session.Awaits setup) (hroot : setup.settings.root = some root)
    (files : FileTree) :
    (w.begun root files).session.Settled ∧ (w.begun root files).session.table.Sound ∧
      (w.begun root files).session.isCancelled = false ∧
      (w.begun root files).session.settings = setup.settings ∧
      (w.begun root files).session.analyzer = setup.analyzer ∧ (w.begun root files).files = files ∧
      w.revise root files = (((w.begun root files).runCycle [root]).1,
        some ((w.begun root files).runCycle [root]).2) ∧
      ((w.begun root files).runCycle [root]).1.session.Awaits setup := by
  let shown : Workshop := { w with files }
  have hroot' : shown.session.settings.root = some root := by
    rw [← hroot, ← h.settings]
  rcases h.waits with ⟨hidle, hlive⟩ | ⟨hstarted, hphase⟩
  · have hstart := start_eq (w := shown) hidle hlive hroot'
    have hwatches := watchesRoot_start (w := shown) h.watches
    have hsettled := settled_opened (w := shown) h.settled root
    rw [hstart] at hwatches
    unfold begun revise
    rw [if_neg (by rw [hidle]; decide), if_neg (by rw [hidle]; decide)]
    refine ⟨hsettled, h.sound, rfl, h.settings, h.analyzer, rfl, hstart, ?_⟩
    exact runCycle_awaits hsettled h.sound h.settings h.analyzer rfl hwatches
  · have hreact := touch_react (w := shown) h.watches hstarted hroot' hphase
    have htouched : (shown.touch root).2.session.WatchesRoot :=
      ⟨(touch_paths _ root).trans h.watches.1, h.watches.2⟩
    have hwatches := watchesRoot_react htouched
    have hsettled := settled_resumed (w := shown) h.settled root
    rw [hreact] at hwatches
    unfold begun revise
    rw [if_pos hstarted, if_pos hstarted]
    refine ⟨hsettled, h.sound, rfl, h.settings, h.analyzer, rfl, hreact, ?_⟩
    exact runCycle_awaits hsettled h.sound h.settings h.analyzer hstarted hwatches

/-- A session that waits runs a cycle over the contents it is shown, and waits again. -/
theorem exists_runCycle_of_awaits (h : w.session.Awaits setup)
    (hroot : setup.settings.root = some root) (files : FileTree) :
    ∃ v : Workshop, v.session.Settled ∧ v.session.table.Sound ∧ v.session.isCancelled = false ∧
      v.session.settings = setup.settings ∧ v.session.analyzer = setup.analyzer ∧ v.files = files ∧
      w.revise root files = ((v.runCycle [root]).1, some (v.runCycle [root]).2) ∧
      (v.runCycle [root]).1.session.Awaits setup :=
  ⟨w.begun root files, begun_of_awaits h hroot files⟩

/-- A session that is shown contents, one after the other, waits after each. -/
theorem reviseAll_awaits (h : w.session.Awaits setup) (hroot : setup.settings.root = some root)
    (contents : List FileTree) : (w.reviseAll root contents).session.Awaits setup := by
  unfold reviseAll
  induction contents generalizing w with
  | nil => exact h
  | cons files contents ih =>
    obtain ⟨v, -, -, -, -, -, -, hrun, hawaits⟩ := exists_runCycle_of_awaits h hroot files
    rw [List.foldl_cons]
    apply ih
    rw [hrun]
    exact hawaits

/-! ## Two cycles over one text -/

/-- Linking without doing anything succeeds. -/
theorem link_dryRun (hplan : w.session.plan = {}) (cycle : Nat) : (w.link cycle).1 = .ok () := by
  unfold link
  extract_lets v
  have hplan' : v.session.plan = {} := hplan
  have hcommand : v.writeCommand = (.ok (), v) := by
    unfold writeCommand
    rw [hplan']
    rfl
  rw [hcommand]
  unfold decideLink useLinker
  dsimp only
  rw [hplan']
  rfl

/-- A plan in which no end is fixed in advance stays as it is. -/
theorem link_plan (hplan : w.session.plan = {}) (cycle : Nat) :
    (w.link cycle).2.session.plan = {} := by
  unfold link
  extract_lets v
  have hplan' : v.session.plan = {} := hplan
  have hcommand : v.writeCommand = (.ok (), v) := by
    unfold writeCommand
    rw [hplan']
    rfl
  rw [hcommand]
  unfold decideLink
  dsimp only
  rw [hplan']
  dsimp only
  rw [useLinker_session, hplan']

theorem compile_plan (w : Workshop) (paths : List String) :
    (w.compile paths).1.session.plan = w.session.plan := (compile_inStepWith w paths).plan

theorem runCycle_plan (hplan : w.session.plan = {}) (paths : List String) :
    (w.runCycle paths).1.session.plan = {} := by
  have hcompiled := (compile_plan w paths).trans hplan
  have hfinish (v : Workshop) (compiled : Except BuildError Nat) (hv : v.session.plan = {}) :
      (v.finish compiled).1.session.plan = {} := by
    cases compiled with
    | error e => exact hv
    | ok n => exact link_plan hv _
  exact hfinish _ _ hcompiled

theorem links_sessionA (text : String) : (sessionA text).Links "a" := by
  intro cycle
  apply link_dryRun
  rw [compile_plan]
  rfl

theorem awaits_sessionA (text : String) :
    (sessionA text).session.Awaits { settings := { root := some "a" } } :=
  createSession_awaits (createSession_sessionA text)

/-- The second of two cycles is the change that a started session sees. -/
theorem revise_sessionA (before after : String) :
    ((sessionA before).reviseAll "a" [fileA before]).revise "a" (fileA after) =
      (revisedA before after).react := by
  have hstarted : (sessionA before).start.1.session.isStarted = true := by
    rw [start_sessionA]
    exact (runCycle_settles ((sessionA before).opened "a") ["a"]).2.2
  have hfirst : (sessionA before).reviseAll "a" [fileA before] = (sessionA before).start.1 := rfl
  rw [hfirst]
  unfold revise
  rw [if_pos hstarted]
  rfl

/-- The declarations that are live after a cycle over a text. -/
def tableA (text : String) : DeclTable :=
  (takeOver (seen ((sessionA text).opened "a") "a" text)
    ((parse text).file "a" text)).state.session.table

/-- The plan for a text after a cycle over another. -/
def nextPlan (before after : String) : ChangePlan :=
  ChangePlan.ofItems { root := some "a" } ((parse after).file "a" after) (tableA before).decls
    (parse after).items

theorem settled_resumedA (before after : String) :
    (revisedA before after).resumed.session.Settled := by
  have hstart : (sessionA before).start.1 = (((sessionA before).opened "a").runCycle ["a"]).1 :=
    congrArg Prod.fst (start_sessionA before)
  have hfirst : (sessionA before).start.1.session.Settled := by
    rw [hstart]
    exact settled_runCycle (settled_opened (awaits_sessionA before).settled "a") "a"
  exact settled_resumed (w := { (sessionA before).start.1 with files := fileA after }) hfirst "a"

theorem planFor_resumedA {before after : String} (hsize : (bytesOf before).length ≤ 4294967295)
    (hvalid : (parse before).error = none) :
    planFor (revisedA before after).resumed ((parse after).file "a" after) =
      nextPlan before after := by
  have hplan (w : Workshop) : planFor w.resumed = planFor w := rfl
  rw [hplan, planFor, settings_revisedA, table_revisedA hsize hvalid]
  rfl

theorem table_resumedA {before after : String} (hsize : (bytesOf before).length ≤ 4294967295)
    (hvalid : (parse before).error = none) :
    (revisedA before after).resumed.session.table = tableA before := by
  have htable (w : Workshop) : w.resumed.session.table = w.session.table := rfl
  rw [htable, table_revisedA hsize hvalid]
  rfl

theorem readSource_resumedA {before after : String} (hsize : (bytesOf after).length ≤ 4294967295) :
    readSource (revisedA before after).resumed.files
      (revisedA before after).resumed.session.settings.maxSourceSize "a" = .ok (.ok after) := by
  have hsettings : (revisedA before after).resumed.session.settings = { root := some "a" } :=
    settings_revisedA before after
  rw [hsettings]
  exact readSource_fileA after hsize

theorem plan_resumedA (before after : String) :
    (revisedA before after).resumed.session.plan = {} := by
  have hplan (w : Workshop) : ({ w with files := fileA after }.touch "a").2.resumed.session.plan =
      w.session.plan := rfl
  have hfirst : (sessionA before).start.1.session.plan = {} := by
    rw [start_sessionA]
    exact runCycle_plan (w := (sessionA before).opened "a") rfl ["a"]
  exact (hplan _).trans hfirst

section

variable {before after : String} (hsize : (bytesOf before).length ≤ 4294967295)
  (hsize' : (bytesOf after).length ≤ 4294967295) (hvalid : (parse before).error = none)
  (hvalid' : (parse after).error = none)
  (hchanges : (nextPlan before after).changes.isEmpty = true)
  (hblocker : (nextPlan before after).blocker.isNone = true)

include hsize hsize' hvalid hvalid' hchanges hblocker

/-- A text that leaves nothing to do after another is taken. -/
theorem takes_nextA : (revisedA before after).resumed.Takes "a" after [] := by
  have hplan : planFor (revisedA before after).resumed ((parse after).file "a" after) =
      nextPlan before after := planFor_resumedA hsize hvalid
  rw [← hplan, List.isEmpty_iff] at hchanges
  rw [← hplan, Option.isNone_iff_eq_none] at hblocker
  have hunblocked := ChangePlan.unblocked_of_blocker hblocker
  refine ⟨readSource_resumedA hsize', hvalid', ?_, fun f hf => absurd hf List.not_mem_nil, ?_⟩
  · rw [← hchanges]
    exact hunblocked
  · have hnodup : ((revisedA before after).resumed.session.table.decls.map (·.symbol)).Nodup :=
      (reachable_revisedA before after).sound_table.nodup
    simpa [Change.addedNames] using hnodup

/-- A text that leaves nothing to do after another is a success then, and what is live stays. -/
theorem next_ok_sessionA :
    ∃ w event, ((sessionA before).reviseAll "a" [fileA before]).revise "a" (fileA after) =
      (w, some event) ∧ event.outcome = .ok ∧ w.session.table = tableA before := by
  let v := (revisedA before after).resumed
  have hsettled : v.session.Settled := settled_resumedA before after
  have hlink : v.session.plan = {} := plan_resumedA before after
  have htakes : v.Takes "a" after [] :=
    takes_nextA hsize hsize' hvalid hvalid' hchanges hblocker
  have haccepts : v.Accepts "a" after [] := by
    constructor
    · exact fun block hblock => absurd hblock List.not_mem_nil
    · exact fun d hd => absurd hd List.not_mem_nil
  refine ⟨_, _, (revise_sessionA before after).trans (react_revisedA before after), ?_, ?_⟩
  · apply ok_of_takes hsettled rfl htakes haccepts
    intro cycle
    apply link_dryRun
    rw [compile_plan]
    exact hlink
  · have hrebuilt := (htakes.rebuilt rfl).2
    unfold runCycle
    dsimp only
    rw [finish_table, compile_table, hrebuilt.table, Change.made, List.foldl_nil]
    exact table_resumedA hsize hvalid

end

/-- A text that leaves nothing to do the second time is a success then. -/
theorem twice_ok_sessionA (text : String) (hsize : (bytesOf text).length ≤ 4294967295)
    (hvalid : (parse text).error = none) (hchanges : (nextPlan text text).changes.isEmpty = true)
    (hblocker : (nextPlan text text).blocker.isNone = true) :
    ∃ w event, ((sessionA text).reviseAll "a" [fileA text]).revise "a" (fileA text) =
      (w, some event) ∧ event.outcome = .ok := by
  obtain ⟨w, event, hrun, hok, -⟩ :=
    next_ok_sessionA hsize hsize hvalid hvalid hchanges hblocker
  exact ⟨w, event, hrun, hok⟩

/-- The exported declarations that a session makes when it is first shown a text. -/
def firstExported (text : String) : List Decl :=
  exported (Change.made (((sessionA text).opened "a").namesAfter text)
    ((parse text).file "a" text) 0
    (ChangePlan.ofItems { root := some "a" } ((parse text).file "a" text) []
      (parse text).items).changes)

/-- A text with an exported function whose signature means nothing is no success the first
time. -/
theorem first_not_ok_sessionA {text : String} (hsize : (bytesOf text).length ≤ 4294967295)
    (hbad : ((firstExported text).any fun d => d.item.meaning?.isNone) = true) :
    (((sessionA text).opened "a").runCycle ["a"]).2.outcome ≠ .ok := by
  intro hok
  have hsettled := settled_opened (awaits_sessionA text).settled "a"
  obtain ⟨text', changes, htakes, haccepts⟩ := takes_of_ok hsettled hok
  obtain rfl : text = text' :=
    Except.ok.inj (Except.ok.inj ((readSource_fileA text hsize).symm.trans htakes.read))
  have hplan : ChangePlan.ofItems { root := some "a" } ((parse text).file "a" text) []
      (parse text).items = { changes } := htakes.unblocked.ofItems_eq
  obtain ⟨d, hd, hnone⟩ := List.any_eq_true.1 hbad
  rw [firstExported, hplan] at hd
  have hgood := haccepts.good d hd
  rw [Decl.finding, Option.isNone_iff_eq_none.1 hnone] at hgood
  exact hgood

/-- A text with an exported function that has a parameter of an unknown type. -/
def unknownTypeText : String := "export fn f(x: foo) void {}\n"

/-- A text with an exported function that has no parameters. -/
def plainText : String := "export fn f() void {}\n"

/-! ## Any number of cycles -/

/-- A session that starts does not change the generator. -/
theorem opened_generator (w : Workshop) (root : String) :
    (w.opened root).toolchain.generator = w.toolchain.generator := by
  unfold opened
  dsimp only
  split
  · unfold Toolchain.nativeRuntime
    split <;> rfl
  · rfl

/-- A session that has been shown any contents runs a cycle over the next ones; if that reports
success, a new session with the same setup that is shown these contents alone reports success
exactly if every exported declaration that is live in the old session is built. -/
theorem incremental_ok_is_clean_iff_built {t t₁ t₂ t₃ : Toolchain} {session fresh : Session}
    (hroot : setup.settings.root = some root)
    (hcreate : t.createSession setup = (.ok session, t₁))
    (hfresh : t₂.createSession setup = (.ok fresh, t₃))
    (hspans : setup.analyzer.IgnoresSpans) (hplace : t₃.generator.IgnoresPlace)
    (before last : FileTree) (contents : List FileTree)
    (hlinks : (⟨fresh, t₃, last⟩ : Workshop).Links root) :
    ∃ w event u first,
      ((⟨session, t₁, before⟩ : Workshop).reviseAll root contents).revise root last =
        (w, some event) ∧
      (⟨fresh, t₃, last⟩ : Workshop).start = (u, some first) ∧
      (event.outcome = .ok → (first.outcome = .ok ↔
        ∀ d ∈ w.session.table.decls, d.isExport = true → w.session.Built t₃.generator d)) := by
  have hawaits := reviseAll_awaits (w := ⟨session, t₁, before⟩) (createSession_awaits hcreate) hroot
    contents
  obtain ⟨v, hsettled, hsound, hlive, hsettings, hanalyzer, hfiles, hrun, -⟩ :=
    exists_runCycle_of_awaits hawaits hroot last
  obtain ⟨id, machine, context, hmade⟩ := createSession_eq_ok hfresh
  let u := Workshop.opened ⟨fresh, t₃, last⟩ root
  have hstart : (⟨fresh, t₃, last⟩ : Workshop).start =
      ((u.runCycle [root]).1, some (u.runCycle [root]).2) := by
    apply start_eq
    · rw [hmade]
    · rw [hmade]
      rfl
    · rw [hmade]
      exact hroot
  have hgenerator : u.toolchain.generator = t₃.generator := opened_generator ..
  refine ⟨_, _, _, _, hrun, hstart, fun hok => ?_⟩
  rw [← hgenerator]
  have hsettled' : u.session.Settled :=
    settled_opened (w := ⟨fresh, t₃, last⟩) (createSession_awaits hfresh).settled root
  have hawaits' := createSession_awaits hfresh
  apply runCycle_ok_iff_built hsettled hsettled' hsound hlive rfl
  · change fresh.table = {}
    rw [hmade]
  · exact hawaits'.settings.trans hsettings.symm
  · exact hawaits'.analyzer.trans hanalyzer.symm
  · exact hfiles.symm
  · rw [hanalyzer]
    exact hspans
  · rw [hgenerator]
    exact hplace
  · exact hlinks
  · exact hok

/-- The function with the unknown type fails in the first of two cycles over its text and is
left alone in the second, which reports success. A new session that is shown the text does
not report success, although its link succeeds. -/
theorem kept_failure_is_not_reported_again :
    ∃ w event u first,
      ((sessionA unknownTypeText).reviseAll "a" [fileA unknownTypeText]).revise "a"
        (fileA unknownTypeText) = (w, some event) ∧ event.outcome = .ok ∧
      (sessionA unknownTypeText).start = (u, some first) ∧ first.outcome ≠ .ok ∧
      (sessionA unknownTypeText).Links "a" := by
  obtain ⟨w, event, hrun, hok⟩ := twice_ok_sessionA unknownTypeText (by decide +kernel)
    (by decide +kernel) (by decide +kernel) (by decide +kernel)
  refine ⟨w, event, _, _, hrun, hok, start_sessionA _, ?_, links_sessionA _⟩
  exact first_not_ok_sessionA (by decide +kernel) (by decide +kernel)

theorem two_cycles_of_plainText :
    ∃ w event u first,
      ((sessionA plainText).reviseAll "a" [fileA plainText]).revise "a" (fileA plainText) =
        (w, some event) ∧ event.outcome = .ok ∧
      (sessionA plainText).start = (u, some first) ∧
      (first.outcome = .ok ↔ ∀ d ∈ w.session.table.decls, d.isExport = true →
        w.session.Built CodeGenerator.null d) := by
  obtain ⟨w, event, hrun, hok⟩ := twice_ok_sessionA plainText (by decide +kernel)
    (by decide +kernel) (by decide +kernel) (by decide +kernel)
  have hcreate : Toolchain.createSession { search := .error (.notFound []) }
      { settings := { root := some "a" } } =
        (.ok (sessionA plainText).session, (sessionA plainText).toolchain) := rfl
  obtain ⟨w', event', u, first, hrun', hstart, hiff⟩ :=
    incremental_ok_is_clean_iff_built rfl hcreate hcreate Analyzer.signature_ignoresSpans
      CodeGenerator.null_ignoresPlace (fileA plainText) (fileA plainText) [fileA plainText]
      (links_sessionA plainText)
  obtain ⟨rfl, hevent⟩ := Prod.mk.inj (hrun.symm.trans hrun')
  obtain rfl := Option.some.inj hevent
  exact ⟨w, event, u, first, hrun, hok, hstart, hiff hok⟩

end Workshop

end IncrementalBuild
