import IncrementalBuild.Proofs.Session.Blur
import IncrementalBuild.Proofs.Session.Steps

/-!
# Work out of focus

A task that is run in a blurred session leaves, through the blur, what it leaves in the session
itself, and so do all tasks of a cycle, its link and its report. So two sessions that look alike
through a blur do the same work and report the same, as long as the code generator does not look at
more of a name than the blur leaves.
-/

set_option autoImplicit false

namespace IncrementalBuild

open Workshop

/-- Nothing that a session does depends on what a blur takes away: the code generator does not look
at it, and neither does the tree of a revision if the session tells it. -/
structure Blur.Suits (b : Blur) (w : Workshop) : Prop where
  generator : ∀ call, w.toolchain.generator (call.blur b) = w.toolchain.generator call
  tree : w.session.settings.verbosity.tree = true → ∀ told names file,
    b.lines (told ++ treeLines (b.table names) file) = b.lines (told ++ treeLines names file)

/-- A generator does not look at the number of a name. -/
def CodeGenerator.IgnoresNames (g : CodeGenerator) : Prop :=
  ∀ call declName, g { call with declName } = g call

theorem Blur.suits_sharp (w : Workshop) : sharp.Suits w := ⟨fun _ => rfl, fun _ _ _ _ => rfl⟩

theorem Blur.suits_blind {w : Workshop} (hignores : w.toolchain.generator.IgnoresNames) :
    (blind w.session.settings.verbosity.tree).Suits w := by
  refine ⟨fun call => hignores call _, fun htree told names file => ?_⟩
  unfold blind
  dsimp only
  rw [htree, if_pos rfl, if_pos rfl]

variable {b : Blur}

theorem Blur.Suits.of_eq {w w' : Workshop} (hb : b.Suits w)
    (hgenerator : w'.toolchain.generator = w.toolchain.generator)
    (hsettings : w'.session.settings = w.session.settings) : b.Suits w' := by
  refine ⟨?_, ?_⟩
  · rw [hgenerator]
    exact hb.generator
  · rw [hsettings]
    exact hb.tree

/-! ## What a session notes -/

namespace Session

theorem note_blur (s : Session) (e : JournalEntry) :
    (s.note e).blur b = (s.blur b).note e.unnumbered := by
  unfold note blur
  dsimp only
  rw [List.map_append, List.map_singleton]

theorem tell_blur (s : Session) (lines : List String) :
    ((s.blur b).tell lines).blur b = (s.tell lines).blur b :=
  calc ((s.blur b).tell lines).blur b
      = { (s.blur b).blur b with told := b.lines (b.lines s.told ++ lines) } := rfl
    _ = { s.blur b with told := b.lines (s.told ++ lines) } := by
        rw [blur_blur, b.lines_append]

end Session

namespace Workshop

/-! ## Taking a revision over -/

theorem tasks_blur (d : Decl) (reserved : Nat) :
    (d.blur b).tasks reserved = (d.tasks reserved).map (·.blur b) := by
  unfold Decl.tasks
  rw [show (d.blur b).isExport = d.isExport from rfl]
  split <;> rfl

/-- What is seen of a session and of the tasks it has spawned. -/
def seenWith (b : Blur) (before : Session × List BuildTask) : Session × List BuildTask :=
  (before.1.blur b, before.2.map (·.blur b))

@[simp] theorem seenWith_seenWith (before : Session × List BuildTask) :
    seenWith b (seenWith b before) = seenWith b before := by simp [seenWith]

theorem applyChange_blur (file : SourceFile) (before : Session × List BuildTask) (c : Change) :
    seenWith b (applyChange file (seenWith b before) c) =
      seenWith b (applyChange file before c) := by
  have hsession := congrArg Prod.fst (seenWith_seenWith (b := b) before)
  have htasks := congrArg Prod.snd (seenWith_seenWith (b := b) before)
  cases c with
  | runComptime block =>
    refine Prod.ext hsession ?_
    unfold seenWith at htasks ⊢
    dsimp only [applyChange] at htasks ⊢
    rw [List.map_append, List.map_append, htasks]
  | reportNameless f =>
    exact Prod.ext (congrArg (·.report (namelessProblem file f)) hsession) htasks
  | add symbol f =>
    rw [applyChange_add, applyChange_add]
    obtain ⟨s, tasks⟩ := before
    have hmade : (declare (s.blur b) file symbol f).1.blur b = (declare s file symbol f).1.blur b :=
      congrArg (fun name => Decl.mk s.nextDecl name symbol f file) (b.name_nameOf s.names symbol)
    have hreserves : (declare (s.blur b) file symbol f).1.reserves =
      (declare s file symbol f).1.reserves := rfl
    unfold seenWith at hsession htasks ⊢
    dsimp only at hsession htasks ⊢
    rw [hreserves]
    generalize (declare (s.blur b) file symbol f).1 = d' at hmade ⊢
    generalize (declare s file symbol f).1 = d at hmade ⊢
    have hentered : ((s.table.blur b).enter d').blur b = (s.table.enter d).blur b := by
      rw [← DeclTable.enter_blur, ← DeclTable.enter_blur, hmade, DeclTable.blur_blur]
    have hrefused : (s.table.blur b).refusal d' = s.table.refusal d := by
      rw [← DeclTable.refusal_blur b (s.table.blur b), ← DeclTable.refusal_blur b s.table, hmade,
        DeclTable.blur_blur]
    have hspawned : (d'.tasks s.exports.reserved).map (·.blur b) =
        (d.tasks s.exports.reserved).map (·.blur b) := by
      rw [← tasks_blur, ← tasks_blur, hmade]
    refine Prod.ext ?_ ?_
    · simp [Session.blur, ExportTable.blur, hentered, hrefused, b.table_table, b.lines_lines]
    · rw [List.map_append, List.map_append, htasks]
      exact congrArg (tasks.map (BuildTask.blur b) ++ ·) hspawned

theorem foldl_applyChange_blur (file : SourceFile) (changes : List Change)
    (before : Session × List BuildTask) :
    seenWith b (changes.foldl (applyChange file) (seenWith b before)) =
      seenWith b (changes.foldl (applyChange file) before) := by
  induction changes generalizing before with
  | nil => exact seenWith_seenWith before
  | cons c changes ih =>
    rw [List.foldl_cons, List.foldl_cons, ← ih, applyChange_blur, ih]

end Workshop

/-! ## What blocks a revision -/

/-- What is seen of what blocks a revision. -/
def Blocker.blur (b : Blur) : Blocker → Blocker
  | .changedKind live v => .changedKind (live.blur b) v
  | .variable v => .variable v
  | .test t => .test t
  | .changedBody live f => .changedBody (live.blur b) f
  | .deleted live => .deleted (live.blur b)

/-- What is seen of a plan. -/
def ChangePlan.blur (b : Blur) (p : ChangePlan) : ChangePlan :=
  { p with blocker := p.blocker.map (·.blur b) }

theorem Blocker.toBuildError_blur (settings : Settings) (file : SourceFile) (blocker : Blocker) :
    (blocker.blur b).toBuildError settings file = blocker.toBuildError settings file := by
  cases blocker <;> rfl

theorem ChangePlan.ofItems_blur (settings : Settings) (file : SourceFile) (stale : List Decl)
    (items : List Item) : ofItems settings file (stale.map (·.blur b)) items =
      (ofItems settings file stale items).blur b := by
  induction items generalizing stale with
  | nil => cases stale <;> rfl
  | cons item items ih =>
    have hfind (symbol : String) : (stale.map (·.blur b)).find? (·.symbol == symbol) =
        (stale.find? (·.symbol == symbol)).map (·.blur b) := List.find?_map ..
    cases item with
    | comptime block =>
      rw [ofItems, ofItems, ih]
      rfl
    | «variable» v =>
      rw [ofItems, ofItems, hfind]
      cases stale.find? (·.symbol == v.name) <;> rfl
    | test t =>
      rw [ofItems, ofItems, ih]
      split <;> rfl
    | function f =>
      rw [ofItems, ofItems]
      cases f.name with
      | none =>
        dsimp only
        rw [ih]
        rfl
      | some symbol =>
        dsimp only
        rw [hfind]
        cases stale.find? (·.symbol == symbol) with
        | none =>
          dsimp only [Option.map_none]
          rw [ih]
          rfl
        | some live =>
          have hothers : (stale.map (·.blur b)).filter (·.symbol != symbol) =
              (stale.filter (·.symbol != symbol)).map (·.blur b) := List.filter_map
          dsimp only [Option.map_some]
          rw [hothers, ih, show (live.blur b).bytes = live.bytes from rfl]
          split <;> rfl


namespace Workshop

variable {w : Workshop}

theorem shown_blur (hb : b.Suits w) (file : SourceFile) :
    (shown (w.blur b) file).blur b = (shown w file).blur b := by
  unfold shown
  split
  · rename_i htree
    rw [if_pos (show w.session.settings.verbosity.tree = true from htree),
      ← Session.tell_blur w.session]
    have hlines := hb.tree htree (b.lines w.session.told) w.session.names file
    exact congrArg (fun told => { (w.session.blur b).blur b with told }) hlines
  · rename_i htree
    rw [if_neg (show ¬w.session.settings.verbosity.tree = true from htree)]
    exact w.session.blur_blur b

/-- Steps look alike if they leave sessions that do, spawn tasks that do and end alike. -/
theorem step_blur_eq {r r' : Step} (hsession : r.state.session.blur b = r'.state.session.blur b)
    (htoolchain : r.state.toolchain.blur b = r'.state.toolchain.blur b)
    (hfiles : r.state.files = r'.state.files)
    (hspawned : r.spawned.map (·.blur b) = r'.spawned.map (·.blur b))
    (houtcome : r.outcome = r'.outcome) : r.blur b = r'.blur b := by
  unfold TaskStep.blur TaskStep.view Workshop.blur
  dsimp only
  rw [hsession, htoolchain, hfiles, hspawned, houtcome]

theorem takeOver_blur (hb : b.Suits w) (file : SourceFile) :
    (takeOver (w.blur b) file).blur b = (takeOver w file).blur b := by
  have hplan : planFor (w.blur b) file = (planFor w file).blur b :=
    ChangePlan.ofItems_blur _ file w.session.table.decls file.items
  have hfold := calc
    seenWith b ((planFor w file).changes.foldl (applyChange file) (shown (w.blur b) file, []))
      = seenWith b ((planFor w file).changes.foldl (applyChange file)
          ((shown (w.blur b) file).blur b, [])) :=
        (foldl_applyChange_blur file _ (shown (w.blur b) file, [])).symm
    _ = seenWith b ((planFor w file).changes.foldl (applyChange file)
          ((shown w file).blur b, [])) := by rw [shown_blur hb]
    _ = seenWith b ((planFor w file).changes.foldl (applyChange file) (shown w file, [])) :=
        foldl_applyChange_blur file _ (shown w file, [])
  rw [takeOver_eq, takeOver_eq, hplan]
  refine step_blur_eq (congrArg Prod.fst hfold) (w.toolchain.blur_blur b) rfl
    (congrArg Prod.snd hfold) ?_
  have hsettings := congrArg (fun seen => seen.1.settings) hfold
  dsimp only [ChangePlan.blur]
  cases (planFor w file).blocker with
  | none => rfl
  | some blocker =>
    exact congrArg TaskOutcome.failed ((blocker.toBuildError_blur _ file).trans
      (congrArg (blocker.toBuildError · file) hsettings))

theorem seen_blur (w : Workshop) (path text : String) :
    (seen (w.blur b) path text).blur b = (seen w path text).blur b := by
  have htold := Session.tell_blur (b := b) w.session
    (if w.session.settings.verbosity.tokens then tokenLines path text else [])
  have hnames := b.table_internAll w.session.names (parse text).names
  have hsession : (seen (w.blur b) path text).session.blur b = (seen w path text).session.blur b :=
    congrArg₂ (fun (seen : Session) names => { seen with names }) htold hnames
  exact congrArg₂ (Workshop.mk · · w.files) hsession (w.toolchain.blur_blur b)

theorem isCancelled_blur (s : Session) : (s.blur b).isCancelled = s.isCancelled := by
  show (s.phase.blur == .cancelled) = (s.phase == .cancelled)
  cases s.phase <;> rfl

theorem rebuild_blur (hb : b.Suits w) (path : String) :
    ((w.blur b).rebuild path).blur b = (w.rebuild path).blur b := by
  have hsame := w.session.blur_blur b
  have htoolchain := w.toolchain.blur_blur b
  cases hlive : w.session.isCancelled with
  | true =>
    have hlive' : (w.blur b).session.isCancelled = true := (isCancelled_blur _).trans hlive
    unfold rebuild
    rw [if_pos hlive, if_pos hlive']
    exact step_blur_eq hsame htoolchain rfl rfl rfl
  | false =>
    have hlive' : (w.blur b).session.isCancelled = false := (isCancelled_blur _).trans hlive
    cases hread : readSource w.files w.session.settings.maxSourceSize path with
    | error e =>
      rw [rebuild_eq_failed hlive hread, rebuild_eq_failed hlive' hread]
      exact step_blur_eq hsame htoolchain rfl rfl rfl
    | ok read =>
      cases read with
      | error problem =>
        rw [rebuild_eq_refused hlive hread, rebuild_eq_refused hlive' hread]
        exact step_blur_eq (congrArg (·.report problem) hsame) htoolchain rfl rfl rfl
      | ok text =>
        have hseen := seen_blur (b := b) w path text
        cases herror : (parse text).error with
        | some e =>
          let problem := Diagnostic.ofSyntaxError ((parse text).file path text) e
          rw [rebuild_eq_report hlive hread herror, rebuild_eq_report hlive' hread herror]
          exact step_blur_eq (congrArg (·.session.report problem) hseen) htoolchain rfl rfl rfl
        | none =>
          have hseenSuits : b.Suits (seen w path text) := ⟨hb.generator, hb.tree⟩
          have hseenSuits' : b.Suits (seen (w.blur b) path text) := ⟨hb.generator, hb.tree⟩
          rw [rebuild_eq_takeOver hlive hread herror, rebuild_eq_takeOver hlive' hread herror,
            ← takeOver_blur hseenSuits, ← takeOver_blur hseenSuits', hseen]

/-! ## Resolving a declaration -/

theorem settle_blur (s : Session) (d : Decl) (r : Resolution) :
    (settle s d r).blur b = settle (s.blur b) (d.blur b) (r.blur b) := by
  have hresolve (m : Memo Resolution) : (m.resolve r).blur b = (m.blur b).resolve (r.blur b) := by
    cases m <;> rfl
  unfold settle
  rw [Session.setResolution_blur, hresolve, ← Session.resolution_blur]
  rfl

theorem settle_blur_eq {s s' : Session} {d d' : Decl} {r r' : Resolution}
    (hs : s.blur b = s'.blur b) (hd : d.blur b = d'.blur b) (hr : r.blur b = r'.blur b) :
    (settle s d r).blur b = (settle s' d' r').blur b := by
  rw [settle_blur, settle_blur, hs, hd, hr]

theorem resolveBody_blur (w : Workshop) (d : Decl) (params : List TypeId) (result type : TypeId)
    (body : Span) :
    ((w.blur b).resolveBody (d.blur b) params result type body).blur b =
      (w.resolveBody d params result type body).blur b := by
  have htoolchain := w.toolchain.blur_blur b
  have hdecl := d.blur_blur b
  unfold resolveBody
  extract_lets before' request' begun' gone' f' call' held' told' before request begun gone f call
    held told
  have hbegun : begun' = begun.blur b :=
    congrArg (releaseTypes · (params ++ [result])) (before.note_blur (analysisEntry request)).symm
  have hgone : gone'.blur b = gone.blur b := by
    unfold gone' gone
    rw [hbegun]
    exact Session.blur_blur b (releaseTypes begun [type])
  rw [show begun'.analyzer request' = begun.analyzer request from rfl]
  cases begun.analyzer request with
  | crashed message =>
    have habandon (m : Memo Resolution) : m.abandon.blur b = (m.blur b).abandon := by
      cases m <;> rfl
    refine step_blur_eq ?_ htoolchain rfl rfl rfl
    show (gone'.setResolution d.id (gone'.resolution d.id).abandon).blur b =
      (gone.setResolution d.id (gone.resolution d.id).abandon).blur b
    rw [Session.setResolution_blur, Session.setResolution_blur, habandon, habandon,
      ← Session.resolution_blur, ← Session.resolution_blur, hgone]
  | rejected code message =>
    refine step_blur_eq (settle_blur_eq ?_ hdecl rfl) htoolchain rfl rfl rfl
    exact congrArg (·.report (rejection d.file body code message)) hgone
  | accepted =>
    have hheld : held' = held.blur b := by
      unfold held' held
      rw [hbegun]
      rfl
    have htold : told'.blur b = told.blur b := by
      unfold told' told
      rw [hheld, show (held.blur b).settings = held.settings from rfl]
      split
      · exact held.tell_blur [valueLine call]
      · exact held.blur_blur b
    refine step_blur_eq (settle_blur_eq htold hdecl ?_) htoolchain rfl ?_ rfl
    · exact Resolution.blur_blur b (.resolved type (some f))
    · exact congrArg₂ (fun call f => [BuildTask.generate call, .link f]) (call.blur_blur b)
        (f.blur_blur b)

theorem produce_blur (w : Workshop) (d : Decl) :
    ((w.blur b).produce (d.blur b)).blur b = (w.produce d).blur b := by
  have htoolchain := w.toolchain.blur_blur b
  have hdecl := d.blur_blur b
  unfold produce
  extract_lets before' reading' read' before reading read
  have hread : read' = read.blur b := rfl
  rw [show reading'.found = reading.found from rfl, hread]
  cases reading.found with
  | none => exact step_blur_eq (settle_blur_eq (read.blur_blur b) hdecl rfl) htoolchain rfl rfl rfl
  | some ids =>
    dsimp only
    rw [show (read.blur b).types = read.types from rfl,
      show (d.blur b).item = d.item from rfl]
    generalize read.types.intern (.function ids.dropLast (ids.getLast?.getD 0)
      (TypeReading.convention d.item)) = interned
    let typed : Workshop := { w with session := { read with types := interned.2 } }
    cases d.item.body with
    | some body => exact resolveBody_blur typed d ids.dropLast _ interned.1 body
    | none =>
      refine step_blur_eq (settle_blur_eq ?_ hdecl rfl) htoolchain rfl rfl rfl
      exact Session.blur_blur b (releaseTypes typed.session ids)

theorem resolve_blur (w : Workshop) (d : Decl) :
    ((w.blur b).resolve (d.blur b)).blur b = (w.resolve d).blur b := by
  have hkept := w.session.resolution_blur b d.id
  unfold resolve
  rw [show (w.blur b).session.resolution (d.blur b).id = _ from hkept]
  cases w.session.resolution d.id with
  | empty =>
    have hbegun : (w.modify (·.setResolution d.id .pending)).blur b =
        (w.blur b).modify (·.setResolution d.id .pending) :=
      congrArg (Workshop.mk · (w.toolchain.blur b) w.files)
        (w.session.setResolution_blur b d.id .pending)
    show (((w.blur b).modify (·.setResolution d.id .pending)).produce (d.blur b)).blur b =
      ((w.modify (·.setResolution d.id .pending)).produce d).blur b
    rw [← hbegun]
    exact produce_blur _ d
  | pending => exact step_blur_eq (w.session.blur_blur b) (w.toolchain.blur_blur b) rfl rfl rfl
  | resolved r => exact step_blur_eq (w.session.blur_blur b) (w.toolchain.blur_blur b) rfl rfl rfl

/-! ## The other tasks -/

theorem claim_blur (w : Workshop) (ticket : ClaimTicket) (d : Decl) :
    (w.blur b).claim ticket (d.blur b) = (w.claim ticket d).blur b := by
  have hclaim := w.session.exports.claim_blur b ticket d
  unfold claim
  rw [show (w.blur b).session.exports = w.session.exports.blur b from rfl, hclaim]
  obtain ⟨_ | c, exports⟩ := w.session.exports.claim ticket d <;> rfl

theorem runComptime_blur (w : Workshop) (file : SourceFile) (block : Span) :
    ((w.blur b).runComptime file block) = (w.runComptime file block).blur b := by
  have hnoted : (w.session.blur b).note (analysisEntry (comptimeRequest file block)) =
      (w.session.note (analysisEntry (comptimeRequest file block))).blur b :=
    (w.session.note_blur (analysisEntry (comptimeRequest file block))).symm
  unfold runComptime
  dsimp only
  rw [show (w.blur b).session = w.session.blur b from rfl, hnoted]
  generalize w.session.note (analysisEntry (comptimeRequest file block)) = s
  rw [show (s.blur b).analyzer = s.analyzer from rfl]
  cases s.analyzer (comptimeRequest file block) <;> rfl

theorem generate_blur (hb : b.Suits w) (call : CodegenCall) :
    (w.blur b).generate (call.blur b) = (w.generate call).blur b := by
  have hcalls : (w.toolchain.blur b).calls ++ [call.blur b] =
      (w.toolchain.calls ++ [call]).map (·.blur b) := by
    rw [List.map_append]
    rfl
  have houtcome : (w.toolchain.blur b).generator (call.blur b) = w.toolchain.generator call :=
    hb.generator call
  have hgenerate : (w.toolchain.blur b).generate (call.blur b) =
      ((w.toolchain.generate call).1, (w.toolchain.generate call).2.blur b) := by
    unfold Toolchain.generate
    dsimp only
    rw [hcalls, houtcome]
    cases w.toolchain.generator call <;> rfl
  unfold generate
  rw [show (w.blur b).toolchain = w.toolchain.blur b from rfl, hgenerate]
  rfl

theorem enterLinkSet_blur (w : Workshop) (f : FunctionValue) :
    (w.blur b).enterLinkSet (f.blur b) = (w.enterLinkSet f).blur b := by
  have hinsert := w.session.linkSet.insert_blur b f
  unfold enterLinkSet
  rw [show (w.blur b).session.linkSet = w.session.linkSet.blur b from rfl, hinsert]
  rfl

/-- A task that is run through a blur leaves, through the blur, what it leaves. -/
theorem runTask_blur (hb : b.Suits w) (task : BuildTask) :
    (runTask (task.blur b) (w.blur b)).blur b = (runTask task w).blur b := by
  have htwice := TaskStep.blur_blur b
  cases task with
  | rebuild path => exact rebuild_blur hb path
  | claim ticket d => exact (congrArg (·.blur b) (claim_blur w ticket d)).trans (htwice _)
  | resolve d => exact resolve_blur w d
  | runComptime file block =>
    exact (congrArg (·.blur b) (runComptime_blur w file block)).trans (htwice _)
  | generate call => exact (congrArg (·.blur b) (generate_blur hb call)).trans (htwice _)
  | link f => exact (congrArg (·.blur b) (enterLinkSet_blur w f)).trans (htwice _)

theorem suits_runTask (hb : b.Suits w) (task : BuildTask) : b.Suits (runTask task w).state :=
  hb.of_eq (runTask_generator task w) (congrArg (fun s => s.settings) (runTask_base task w))

/-- Tasks respect what is seen through a blur. -/
theorem respects_runTask (b : Blur) :
    Respects runTask (Workshop.blur b) (BuildTask.blur b) b.Suits where
  step {t t' w w'} hw hw' ht hsee := by
    have hrun := runTask_blur hw t
    rw [ht, hsee] at hrun
    exact hrun.symm.trans (runTask_blur hw' t')
  kept t _ hw := suits_runTask hw t

end Workshop

end IncrementalBuild
