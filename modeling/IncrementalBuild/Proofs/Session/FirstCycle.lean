import IncrementalBuild.Proofs.Session.CleanVerdict
import IncrementalBuild.Proofs.Session.Diagnosis

/-!
# What a new session reports

A session that was just made and is started builds its root file. The revision is new to it, so
each item is taken as it comes: what the tasks of the cycle report, one after the other, is what
there is to say about the source file, in the same order, and nothing of it depends on how the
work is divided into tasks.
-/

set_option autoImplicit false

namespace IncrementalBuild

/-! ## The plan for a file that is new -/

/-- What a session without declarations does about an item. -/
def Item.change? : Item → Option Change
  | .comptime block => some (.runComptime block)
  | .function f =>
    match f.name with
    | none => some (.reportNameless f)
    | some symbol => some (.add symbol f)
  | .variable _ | .test _ => none

namespace ChangePlan

variable {settings : Settings} {file : SourceFile} {items : List Item}

/-- A revision that is new is blocked by its first item that cannot be built. -/
theorem blocker_ofItems_nil :
    (ofItems settings file [] items).blocker.map (Blocker.toBuildError settings file) =
      items.findSome? (Item.unsupported? settings file) := by
  induction items with
  | nil => rfl
  | cons item items ih =>
    rw [List.findSome?_cons]
    cases item with
    | comptime block => exact ih
    | «variable» v => rfl
    | test t =>
      rw [ofItems, Item.unsupported?]
      split
      · rfl
      · exact ih
    | function f =>
      rw [ofItems]
      cases f.name with
      | none => exact ih
      | some symbol => exact ih

/-- A revision that is new and not blocked is taken item by item. -/
theorem changes_ofItems_nil (h : (ofItems settings file [] items).blocker = none) :
    (ofItems settings file [] items).changes = items.filterMap Item.change? := by
  induction items with
  | nil => rfl
  | cons item items ih =>
    cases item with
    | comptime block => exact congrArg (_ :: ·) (ih h)
    | «variable» v => cases h
    | test t =>
      rw [ofItems] at h ⊢
      split at h
      · cases h
      · rename_i hselected
        rw [if_neg hselected]
        exact ih h
    | function f =>
      rw [ofItems] at h ⊢
      rw [List.filterMap_cons, Item.change?]
      cases hname : f.name with
      | none =>
        rw [hname] at h
        exact congrArg (_ :: ·) (ih h)
      | some symbol =>
        rw [hname] at h
        exact congrArg (_ :: ·) (ih h)

end ChangePlan

/-! ## Who has a name -/

/-- Under each name there is the first of some functions of a file that has it. -/
def HoldsFirst (find? : String → Option Decl) (file : SourceFile) (fs : List FunctionItem) : Prop :=
  ∀ symbol, (find? symbol).map (fun d => (d.file, d.item)) =
    (FunctionItem.firstNamed? symbol fs).map fun f => (file, f)

namespace HoldsFirst

variable {find? : String → Option Decl} {file : SourceFile} {fs : List FunctionItem}

/-- A function without a name holds none. -/
theorem nameless (h : HoldsFirst find? file fs) {f : FunctionItem} (hname : f.name = none) :
    HoldsFirst find? file (fs ++ [f]) := by
  intro symbol
  rw [h symbol, FunctionItem.firstNamed?, FunctionItem.firstNamed?, List.find?_append]
  simp [hname]

/-- A declaration gets its name if it is free. -/
theorem enter (h : HoldsFirst find? file fs) {d : Decl} (hname : d.item.name = some d.symbol)
    (hfile : d.file = file) :
    HoldsFirst (fun symbol => (find? symbol).or (if d.symbol = symbol then some d else none)) file
      (fs ++ [d.item]) := by
  intro symbol
  have happend : FunctionItem.firstNamed? symbol (fs ++ [d.item]) =
      (FunctionItem.firstNamed? symbol fs).or (if d.symbol = symbol then some d.item else none) := by
    rw [FunctionItem.firstNamed?, List.find?_append]
    congr 1
    by_cases hsymbol : d.symbol = symbol
    · simp [hname, hsymbol]
    · simp [hname, hsymbol]
  rw [happend, Option.map_or, Option.map_or, h symbol]
  split
  · rw [Option.map_some, Option.map_some, hfile]
  · rfl

/-- What there is to say about the holder of a name depends on its function alone. -/
theorem map_toList {α : Type} (h : HoldsFirst find? file fs) {say : Decl → α}
    {say' : FunctionItem → α} (hsay : ∀ d, d.file = file → say d = say' d.item) (symbol : String) :
    (find? symbol).toList.map say = (FunctionItem.firstNamed? symbol fs).toList.map say' := by
  have hfirst := h symbol
  cases hfind : find? symbol with
  | none =>
    rw [hfind, Option.map_none, eq_comm, Option.map_eq_none_iff] at hfirst
    rw [hfirst]
    rfl
  | some d =>
    rw [hfind, Option.map_some, eq_comm, Option.map_eq_some_iff] at hfirst
    obtain ⟨f, hf, heq⟩ := hfirst
    obtain ⟨hfile, rfl⟩ := Prod.mk.inj heq
    rw [hf, Option.toList_some, Option.toList_some, List.map_singleton, List.map_singleton,
      hsay d hfile.symm]

end HoldsFirst

/-! ## What is noted of names -/

namespace HoldsFirst

variable {file : SourceFile} {t : DeclTable} {before : List FunctionItem} {d : Decl}

/-- A declaration is refused for the first function of its name. -/
theorem refusal_eq (h : HoldsFirst t.find? file before) (hfile : d.file = file) :
    t.refusal d = (FunctionItem.firstNamed? d.symbol before).toList.map
      (FunctionItem.redefinition file d.symbol d.item) := by
  refine h.map_toList (fun existing hexisting => ?_) d.symbol
  rw [Workshop.redefinitionProblem, hfile, hexisting]
  rfl

theorem declare (h : HoldsFirst t.find? file before) (hname : d.item.name = some d.symbol)
    (hfile : d.file = file) : HoldsFirst (t.enter d).find? file (before ++ [d.item]) := by
  have hstep := h.enter hname hfile
  rwa [← funext fun symbol => @DeclTable.find?_enter t d symbol] at hstep

end HoldsFirst

/-- Entering the functions of a revision notes what is wrong with their names. -/
theorem noted_eq_inTurn {names : Interner} {file : SourceFile} {t : DeclTable}
    {before : List FunctionItem} (h : HoldsFirst t.find? file before) (next : DeclId)
    (items : List Item) :
    Change.noted names file t next (items.filterMap Item.change?) =
      inTurn (FunctionItem.nameProblems file) before (functionsOf items) := by
  induction items generalizing t before next with
  | nil => rfl
  | cons item items ih =>
    cases item with
    | comptime block => exact ih h next
    | «variable» v => exact ih h next
    | test t => exact ih h next
    | function f =>
      have hcons : functionsOf (.function f :: items) = f :: functionsOf items := rfl
      rw [hcons, inTurn, List.filterMap_cons, Item.change?, FunctionItem.nameProblems]
      cases hname : f.name with
      | none =>
        dsimp only
        rw [Change.noted, ih (h.nameless hname)]
        rfl
      | some symbol =>
        let d : Decl := { id := next, name := names.nameOf symbol, symbol, item := f, file }
        have hrefusal := h.refusal_eq (d := d) rfl
        dsimp only
        rw [Change.noted, ih (h.declare (d := d) hname rfl)]
        exact congrArg (· ++ _) hrefusal

/-! ## What is reported of exports -/

namespace ExportTable

variable {t : ExportTable} {ticket : ClaimTicket} {d : Decl}

/-- All symbols in use were claimed with a smaller ticket. -/
def Before (t : ExportTable) (reserved : Nat) : Prop :=
  ∀ e ∈ t.entries, e.ticket.number < reserved

/-- A claim that comes after all others loses against the holder of the symbol, if there is
one. -/
theorem claim_eq (h : t.Before ticket.number) (d : Decl) :
    t.claim ticket d = ((t.find? d.symbol).map fun kept => ⟨kept, d⟩,
      if (t.find? d.symbol).isSome then t
      else { t with entries := t.entries ++ [⟨ticket, d⟩] }) := by
  unfold claim find?
  cases hentry : t.entry? d.symbol with
  | none => rfl
  | some held =>
    have hlt := h held (List.mem_of_find?_eq_some hentry)
    dsimp only
    rw [if_pos hlt]
    rfl

theorem find?_claim (h : t.Before ticket.number) (symbol : String) :
    (t.claim ticket d).2.find? symbol =
      (t.find? symbol).or (if d.symbol = symbol then some d else none) := by
  rw [claim_eq h]
  by_cases hsymbol : d.symbol = symbol
  · rw [if_pos hsymbol, ← hsymbol]
    cases hfind : t.find? d.symbol with
    | some kept =>
      rw [Option.some_or]
      exact hfind
    | none =>
      unfold find? entry? at hfind ⊢
      rw [Option.map_eq_none_iff] at hfind
      simp [hfind]
  · rw [if_neg hsymbol, Option.or_none]
    dsimp only
    split
    · rfl
    · unfold find? entry?
      simp [hsymbol]

theorem before_claim (h : t.Before ticket.number) :
    (t.claim ticket d).2.Before (ticket.number + 1) := by
  have hold : ∀ e ∈ t.entries, e.ticket.number < ticket.number + 1 :=
    fun e he => Nat.lt_succ_of_lt (h e he)
  rw [claim_eq h]
  dsimp only
  split
  · exact hold
  · intro e he
    rcases List.mem_append.1 he with he | he
    · exact hold e he
    · rw [List.mem_singleton.1 he]
      exact Nat.lt_succ_self _

end ExportTable

namespace HoldsFirst

variable {file : SourceFile} {t : ExportTable} {before : List FunctionItem} {ticket : ClaimTicket}
  {d : Decl}

/-- A late claim collides with the first exported function of its name. -/
theorem collision_eq (h : HoldsFirst t.find? file before) (hlate : t.Before ticket.number)
    (hfile : d.file = file) :
    (t.claim ticket d).1.toList.map Workshop.collisionProblem =
      (FunctionItem.firstNamed? d.symbol before).toList.map
        (FunctionItem.collision file d.symbol d.item) := by
  rw [ExportTable.claim_eq hlate, Option.toList_map, List.map_map]
  refine h.map_toList (fun kept hkept => ?_) d.symbol
  rw [Function.comp, Workshop.collisionProblem, hfile, hkept]
  rfl

theorem claim (h : HoldsFirst t.find? file before) (hlate : t.Before ticket.number)
    (hname : d.item.name = some d.symbol) (hfile : d.file = file) :
    HoldsFirst (t.claim ticket d).2.find? file (before ++ [d.item]) := by
  have hstep := h.enter hname hfile
  rwa [← funext fun symbol => @ExportTable.find?_claim t ticket d hlate symbol] at hstep

end HoldsFirst

/-- The analyzer that looks at signatures accepts every block that has to produce nothing. -/
theorem Analyzer.signature_comptime (file : SourceFile) (block : Span) :
    Analyzer.signature (Workshop.comptimeRequest file block) = .accepted := rfl

theorem Analyzer.signature_ne_crashed (r : AnalysisRequest) (message : String) :
    Analyzer.signature r ≠ .crashed message := by
  unfold signature
  split
  · exact fun h => by cases h
  · exact fun h => by cases h

/-- What resolving a declaration reports is what is wrong with its function. -/
theorem Decl.problems_finding (d : Decl) :
    (d.finding Analyzer.signature).problems = d.item.meaningProblems d.file d.symbol := by
  unfold finding FunctionItem.meaningProblems
  cases d.item.meaning? with
  | none => rfl
  | some signature =>
    dsimp only
    cases d.item.body with
    | none => rfl
    | some body =>
      dsimp only
      by_cases hblank : (!signature.2.producesNothing &&
          (trim (innerSource d.file body).toList).isEmpty) = true
      · have hverdict : Analyzer.signature (d.request signature.1 signature.2 body) =
            .rejected .E3004
              s!"`{d.symbol}` returns `{signature.2.text}` but its body is empty" :=
          if_pos hblank
        rw [hverdict, if_pos hblank]
        rfl
      · have hverdict : Analyzer.signature (d.request signature.1 signature.2 body) = .accepted :=
          if_neg hblank
        rw [hverdict, if_neg hblank]
        rfl

/-- Resolving a declaration does not fail. -/
theorem Decl.outcome_finding (d : Decl) : (d.finding Analyzer.signature).outcome = .done := by
  unfold finding
  cases d.item.meaning? with
  | none => rfl
  | some signature =>
    dsimp only
    cases d.item.body with
    | none => rfl
    | some body =>
      dsimp only
      cases hverdict : Analyzer.signature (d.request signature.1 signature.2 body) with
      | crashed message => exact absurd hverdict (Analyzer.signature_ne_crashed _ _)
      | rejected code message => rfl
      | accepted => rfl

theorem exportsOf_cons (f : FunctionItem) (items : List Item) :
    exportsOf (.function f :: items) =
      if f.isExport && f.name.isSome then f :: exportsOf items else exportsOf items := by
  unfold exportsOf functionsOf
  rw [List.filterMap_cons, List.filter_cons]

/-- The tasks of a revision report what is wrong with its exported functions. -/
theorem BuildTask.reportsOf_eq_inTurn {names : Interner} {file : SourceFile}
    {exports : ExportTable} {reserved : Nat} {before : List FunctionItem}
    (h : HoldsFirst exports.find? file before) (hlate : exports.Before reserved) (next : DeclId)
    (items : List Item) :
    reportsOf Analyzer.signature exports
        (Change.tasks names file next reserved (items.filterMap Item.change?)) =
      inTurn (FunctionItem.exportProblems file) before (exportsOf items) := by
  induction items generalizing exports reserved before next with
  | nil => rfl
  | cons item items ih =>
    cases item with
    | comptime block => exact ih h hlate next
    | «variable» v => exact ih h hlate next
    | test t => exact ih h hlate next
    | function f =>
      rw [exportsOf_cons, List.filterMap_cons, Item.change?]
      cases hname : f.name with
      | none =>
        rw [Option.isSome_none, Bool.and_false, if_neg (by decide)]
        exact ih h hlate next
      | some symbol =>
        rw [Option.isSome_some, Bool.and_true]
        let d : Decl := { id := next, name := names.nameOf symbol, symbol, item := f, file }
        have htasks : Change.tasks names file next reserved
            (.add symbol f :: items.filterMap Item.change?) = d.tasks reserved ++
              Change.tasks names file (next + 1) (d.reserves reserved)
                (items.filterMap Item.change?) := rfl
        dsimp only
        rw [htasks, Decl.tasks, Decl.reserves, Decl.isExport]
        split
        · have hreports (rest : List BuildTask) :
              reportsOf Analyzer.signature exports ([.claim ⟨reserved⟩ d, .resolve d] ++ rest) =
                (exports.claim ⟨reserved⟩ d).1.toList.map Workshop.collisionProblem ++
                  ((d.finding Analyzer.signature).problems ++
                    reportsOf Analyzer.signature (exports.claim ⟨reserved⟩ d).2 rest) := rfl
          rw [hreports, h.collision_eq hlate rfl, Decl.problems_finding,
            ih (h.claim hlate hname rfl) (ExportTable.before_claim hlate), inTurn,
            FunctionItem.exportProblems, hname, List.append_assoc]
        · exact ih h hlate (next + 1)

/-! ## The first cycle -/

namespace Workshop

variable {w : Workshop} {root text : String}

/-- A revision that is blocked fails. -/
theorem takeOver_blocked {file : SourceFile} {b : Blocker}
    (h : (planFor w file).blocker = some b) :
    (takeOver w file).outcome = .failed (b.toBuildError w.session.settings file) := by
  rw [takeOver_outcome_eq, h]

theorem compile_cycle (w : Workshop) (paths : List String) :
    (w.compile paths).1.session.cycle = w.session.cycle := (compile_inStepWith w paths).cycle

/-- A cycle whose rebuild ends with an error reports that error. -/
theorem runCycle_of_error {e : BuildError}
    (h : (w.rebuild root).outcome.error? groupName = some e) :
    (w.runCycle [root]).2 = { cycle := w.session.cycle + 1, outcome := .error e } := by
  have hverdict : (runGroup groupName runTask BuildTask.depth [.rebuild root] w).verdict =
      .error e := by
    apply verdict_runGroup_of_error
    exact h
  have hcompile : (w.compile [root]).2 = .error e := by
    unfold compile
    dsimp only
    rw [List.map_singleton, hverdict]
  unfold runCycle
  dsimp only
  rw [finish_event, hcompile, compile_cycle]
  rfl

/-- A cycle whose rebuild fails reports why. -/
theorem runCycle_failed {e : BuildError} (h : (w.rebuild root).outcome = .failed e) :
    (w.runCycle [root]).2 = { cycle := w.session.cycle + 1, outcome := .error e } := by
  apply runCycle_of_error
  rw [h]
  rfl

/-- A cycle in which nothing fails reports the problems that its rebuild and its tasks noted. -/
theorem runCycle_of_done {names : Interner} {file : SourceFile} {changes : List Change}
    {problems : List Diagnostic} (hs : w.session.Settled)
    (h : Rebuilt w.session names file changes problems (w.rebuild root))
    (herrors : (runGroup groupName runTask BuildTask.depth [.rebuild root] w).errors = [])
    (hlink : ∀ cycle, ((w.compile [root]).1.link cycle).1 = .ok ()) :
    (w.runCycle [root]).2 =
      { cycle := w.session.cycle + 1
        outcome := match problems ++ BuildTask.reportsOf w.session.analyzer
            (w.rebuild root).state.session.exports (w.rebuild root).spawned with
          | [] => .ok
          | problems => .fail problems } := by
  obtain ⟨n, hcompile⟩ := (compile_ok_iff w root).2 herrors
  unfold runCycle
  dsimp only
  rw [finish_event, hcompile, compile_cycle, ← compile_log hs h]
  change ({ cycle := _, outcome := outcome ((w.compile [root]).1.link _).1 _ } : BuildEvent) = _
  rw [hlink, outcome, DiagnosticLog.isEmpty]
  cases (w.compile [root]).1.session.log.entries with
  | nil => rfl
  | cons problem problems => rfl

/-- With the analyzer and the generator that are used by default nothing fails but a rebuild. -/
theorem runCycle_reports {names : Interner} {file : SourceFile} {changes : List Change}
    {problems : List Diagnostic} (hs : w.session.Settled)
    (h : Rebuilt w.session names file changes problems (w.rebuild root))
    (hdone : (w.rebuild root).outcome = .done)
    (hanalyzer : w.session.analyzer = Analyzer.signature)
    (hgenerator : w.toolchain.generator = CodeGenerator.null)
    (hlink : ∀ cycle, ((w.compile [root]).1.link cycle).1 = .ok ()) :
    (w.runCycle [root]).2 =
      { cycle := w.session.cycle + 1
        outcome := match problems ++ BuildTask.reportsOf Analyzer.signature
            (w.rebuild root).state.session.exports (w.rebuild root).spawned with
          | [] => .ok
          | problems => .fail problems } := by
  have herrors : (runGroup groupName runTask BuildTask.depth [.rebuild root] w).errors = [] := by
    rw [(compiled_of_rebuilt hs h).errors, hanalyzer, hgenerator]
    refine ⟨hdone, fun t ht => ?_, fun _ _ _ _ => rfl⟩
    rw [h.spawned] at ht
    rcases Change.mem_tasks ht with ⟨block, -, rfl⟩ | ⟨ticket, d, rfl⟩ | ⟨d, rfl⟩
    · rw [BuildTask.ends, Analyzer.signature_comptime]
    · rfl
    · exact d.outcome_finding
  rw [runCycle_of_done hs h herrors hlink, hanalyzer]

section Root

variable (hs : w.session.Settled) (hlive : w.session.isCancelled = false)
  (hempty : w.session.table = {})
  (hread : readSource w.files w.session.settings.maxSourceSize root = .ok (.ok text))
  (hanalyzer : w.session.analyzer = Analyzer.signature)
  (hgenerator : w.toolchain.generator = CodeGenerator.null)
  (hlink : ∀ cycle, ((w.compile [root]).1.link cycle).1 = .ok ())

include hlive hread

include hs hanalyzer hgenerator hlink in
/-- A text with a syntax error is reported as that error. -/
theorem runCycle_invalid {e : SyntaxError} (hinvalid : (parse text).error = some e) :
    (w.runCycle [root]).2 =
      { cycle := w.session.cycle + 1
        outcome := .fail [.ofSyntaxError ((parse text).file root text) e] } := by
  have hrebuild := rebuild_eq_report hlive hread hinvalid
  have hrebuilt := rebuilt_invalid hlive hread hinvalid
  rw [runCycle_reports hs hrebuilt (by rw [hrebuild]) hanalyzer hgenerator hlink, hrebuild]
  rfl

include hempty

/-- A text with an item that cannot be built is reported as the first such item. -/
theorem runCycle_unsupported {e : BuildError} (hvalid : (parse text).error = none)
    (hitem : ((parse text).file root text).items.findSome?
      (Item.unsupported? w.session.settings ((parse text).file root text)) = some e) :
    (w.runCycle [root]).2 = { cycle := w.session.cycle + 1, outcome := .error e } := by
  let file := (parse text).file root text
  have hplan : planFor w file = ChangePlan.ofItems w.session.settings file [] file.items := by
    rw [planFor, hempty]
  rw [← ChangePlan.blocker_ofItems_nil, ← hplan, Option.map_eq_some_iff] at hitem
  obtain ⟨b, hblocked, rfl⟩ := hitem
  have hseen : (planFor (seen w root text) file).blocker = some b := hblocked
  have hfailed := takeOver_blocked hseen
  rw [← rebuild_eq_takeOver hlive hread hvalid] at hfailed
  exact runCycle_failed hfailed

include hs hanalyzer hgenerator hlink

/-- A text in which every item can be built is reported as its problems. -/
theorem runCycle_supported (hvalid : (parse text).error = none)
    (hitems : ((parse text).file root text).items.findSome?
      (Item.unsupported? w.session.settings ((parse text).file root text)) = none) :
    (w.runCycle [root]).2 =
      { cycle := w.session.cycle + 1
        outcome := match ((parse text).file root text).problems with
          | [] => .ok
          | problems => .fail problems } := by
  let file := (parse text).file root text
  have hplan : planFor w file = ChangePlan.ofItems w.session.settings file [] file.items := by
    rw [planFor, hempty]
  rw [← ChangePlan.blocker_ofItems_nil, ← hplan, Option.map_eq_none_iff] at hitems
  have hchanges : (planFor w file).changes = file.items.filterMap Item.change? := by
    rw [hplan] at hitems ⊢
    exact ChangePlan.changes_ofItems_nil hitems
  have hrebuilt := rebuilt_taken hlive hread hvalid
  have hdone : (w.rebuild root).outcome = .done := by
    rw [rebuild_eq_takeOver hlive hread hvalid]
    exact takeOver_outcome.2 hitems
  -- nothing is declared, so no symbol is in use
  have hunused : w.session.exports.inUse = [] := by
    rw [List.eq_nil_iff_forall_not_mem]
    intro symbol hsymbol
    have hlisted := hs.claimed symbol hsymbol
    rw [hempty] at hlisted
    cases hlisted
  have hentries : (w.rebuild root).state.session.exports.entries = [] := by
    rw [hrebuilt.entries]
    exact List.map_eq_nil_iff.1 hunused
  have hnames : HoldsFirst w.session.table.find? file [] := by
    rw [hempty]
    exact fun _ => rfl
  have hexports : HoldsFirst (w.rebuild root).state.session.exports.find? file [] := by
    intro symbol
    rw [ExportTable.find?, ExportTable.entry?, hentries]
    rfl
  have hbefore : (w.rebuild root).state.session.exports.Before w.session.exports.reserved := by
    intro e he
    rw [hentries] at he
    cases he
  rw [runCycle_reports hs hrebuilt hdone hanalyzer hgenerator hlink, hrebuilt.spawned,
    hchanges, noted_eq_inTurn hnames, BuildTask.reportsOf_eq_inTurn hexports hbefore]
  rfl

/-- The first cycle of a session reports what there is to say about its root file. -/
theorem runCycle_firstOutcome : (w.runCycle [root]).2 =
    { cycle := w.session.cycle + 1, outcome := firstOutcome w.session.settings root text } := by
  unfold firstOutcome
  dsimp only
  cases hinvalid : (parse text).error with
  | some e => exact runCycle_invalid hs hlive hread hanalyzer hgenerator hlink hinvalid
  | none =>
    dsimp only
    cases hitem : ((parse text).file root text).items.findSome?
        (Item.unsupported? w.session.settings ((parse text).file root text)) with
    | some e => exact runCycle_unsupported hlive hempty hread hinvalid hitem
    | none =>
      exact runCycle_supported hs hlive hempty hread hanalyzer hgenerator hlink hinvalid hitem

end Root

/-- Making a session does not change the generator. -/
theorem createSession_generator {t t' : Toolchain} {setup : SessionSetup} {s : Session}
    (h : t.createSession setup = (.ok s, t')) : t'.generator = t.generator := by
  unfold Toolchain.createSession at h
  dsimp only at h
  split at h
  · cases h
  · rename_i hacquire
    split at h
    · cases h
    · cases h
      exact (congrArg (fun r => r.2.generator) hacquire).symm

/-- A session that was just made is started on a root file of any content that is text and not
too big. Its analyzer and the code generator are those used by default, and its linker succeeds.
Then its first cycle reports the syntax error of the text, or else the first item that cannot be
built, or else all problems of its names and then of its exports, in the order of the text, or
success if there are none. -/
theorem first_cycle_reports {t t' : Toolchain} {setup : SessionSetup} {session : Session}
    {files : FileTree} {bytes : ByteArray} {isExecutable : Bool}
    (hroot : setup.settings.root = some root)
    (hanalyzer : setup.analyzer = Analyzer.signature)
    (hgenerator : t.generator = CodeGenerator.null)
    (hcreate : t.createSession setup = (.ok session, t'))
    (hfile : files.find root = .ok (.file bytes isExecutable))
    (hsize : bytes.size ≤ setup.settings.maxSourceSize) (htext : decode bytes = .ok text)
    (hlinks : (⟨session, t', files⟩ : Workshop).Links root) :
    ∃ w, (⟨session, t', files⟩ : Workshop).start =
      (w, some { cycle := 1, outcome := firstOutcome setup.settings root text }) := by
  have hawaits := createSession_awaits hcreate
  obtain ⟨id, machine, context, hmade⟩ := createSession_eq_ok hcreate
  let u := Workshop.opened ⟨session, t', files⟩ root
  have hstart : (⟨session, t', files⟩ : Workshop).start =
      ((u.runCycle [root]).1, some (u.runCycle [root]).2) := by
    apply start_eq
    · rw [hmade]
    · rw [hmade]
      rfl
    · rw [hmade]
      exact hroot
  have hsettings : u.session.settings = setup.settings := hawaits.settings
  have hread : readSource u.files u.session.settings.maxSourceSize root = .ok (.ok text) := by
    rw [hsettings]
    change readSource files _ root = _
    unfold readSource
    rw [hfile]
    dsimp only
    rw [if_neg (Nat.not_lt.2 hsize), htext]
  have hempty : u.session.table = {} := by
    change session.table = {}
    rw [hmade]
  have hcycle : u.session.cycle = 0 := by
    change session.cycle = 0
    rw [hmade]
  have hgenerator' : u.toolchain.generator = CodeGenerator.null :=
    (opened_generator ..).trans ((createSession_generator hcreate).trans hgenerator)
  have hsettled : u.session.Settled :=
    settled_opened (w := ⟨session, t', files⟩) hawaits.settled root
  have hreports := runCycle_firstOutcome hsettled rfl hempty hread
    (hawaits.analyzer.trans hanalyzer) hgenerator' hlinks
  rw [hcycle, hsettings] at hreports
  exact ⟨_, by rw [hstart, hreports]⟩

/-- The first cycle over a text of a session that was just made. -/
theorem outcome_firstA {text : String} (hsize : (bytesOf text).length ≤ 4294967295) :
    (((sessionA text).opened "a").runCycle ["a"]).2.outcome =
      firstOutcome { root := some "a" } "a" text := by
  have hsettled := settled_opened (awaits_sessionA text).settled "a"
  have hread : readSource ((sessionA text).opened "a").files
      ((sessionA text).opened "a").session.settings.maxSourceSize "a" = .ok (.ok text) :=
    readSource_fileA text hsize
  have hreports := runCycle_firstOutcome hsettled rfl rfl hread rfl rfl (links_sessionA text)
  exact congrArg (·.outcome) hreports

/-- A text with a function without a name, one whose parameter has an unknown type, and another
of the same name that has to return something but does nothing. -/
def troubledText : String :=
  "fn () void {}\nexport fn f(x: foo) void {}\nexport fn f() i32 { }\n"

/-- The session for the troubled text reports what is wrong with names, of the function without
one and of the last, before what is wrong with either export. -/
theorem first_cycle_of_troubledText :
    ∃ w problems, (sessionA troubledText).start =
        (w, some { cycle := 1, outcome := .fail problems }) ∧
      problems.map (·.code) = [.E2001, .E2002, .E3001, .E2003, .E3004] := by
  have hcreate : Toolchain.createSession { search := .error (.notFound []) }
      { settings := { root := some "a" } } =
        (.ok (sessionA troubledText).session, (sessionA troubledText).toolchain) := rfl
  have hsize : (bytesOf troubledText).toArray.size ≤ 4294967295 := by decide +kernel
  obtain ⟨w, hstart⟩ := first_cycle_reports rfl rfl rfl hcreate (find_fileA troubledText) hsize
    (decode_bytesOf troubledText) (links_sessionA troubledText)
  have hcodes : (firstOutcome { root := some "a" } "a" troubledText).problems.map (·.code) =
      [.E2001, .E2002, .E3001, .E2003, .E3004] := by decide +kernel
  have hfail := BuildOutcome.eq_fail (o := firstOutcome { root := some "a" } "a" troubledText) <| by
    intro hnone
    rw [hnone] at hcodes
    cases hcodes
  rw [hfail] at hstart
  exact ⟨w, _, hstart, hcodes⟩

end Workshop

end IncrementalBuild
