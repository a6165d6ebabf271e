import IncrementalBuild.Proofs.Session.Levels

/-!
# What the changes of a revision add

Carrying out the changes of a revision makes a declaration for each function that is added,
numbers them in order, enters each under its name if the name is free, and spawns the claim and
the resolution of those that are exported. A problem is noted for each function without a name
and for each name that is taken, and for nothing else.
-/

set_option autoImplicit false

namespace IncrementalBuild

/-- The declarations that changes make, numbered from `next`. -/
def Change.made (names : Interner) (file : SourceFile) : (next : DeclId) → List Change → List Decl
  | _, [] => []
  | next, .runComptime _ :: rest => made names file next rest
  | next, .reportNameless _ :: rest => made names file next rest
  | next, .add symbol f :: rest =>
    { id := next, name := names.nameOf symbol, symbol, item := f, file } ::
      made names file (next + 1) rest

/-- The declarations that are exported. -/
def exported (decls : List Decl) : List Decl := decls.filter (·.isExport)

theorem exported_cons (d : Decl) (decls : List Decl) :
    exported (d :: decls) = (if d.isExport then [d] else []) ++ exported decls := by
  unfold exported
  rw [List.filter_cons]
  split <;> rfl

/-- The tasks of a declaration, if its symbol is claimed with the next ticket. -/
def Decl.tasks (d : Decl) (reserved : Nat) : List BuildTask :=
  if d.isExport then [.claim ⟨reserved⟩ d, .resolve d] else []

/-- The number of tickets reserved after a declaration was made. -/
def Decl.reserves (d : Decl) (reserved : Nat) : Nat := if d.isExport then reserved + 1 else reserved

/-- The tasks that changes spawn. -/
def Change.tasks (names : Interner) (file : SourceFile) :
    (next reserved : Nat) → List Change → List BuildTask
  | _, _, [] => []
  | next, reserved, .runComptime block :: rest =>
    .runComptime file block :: tasks names file next reserved rest
  | next, reserved, .reportNameless _ :: rest => tasks names file next reserved rest
  | next, reserved, .add symbol f :: rest =>
    let d : Decl := { id := next, name := names.nameOf symbol, symbol, item := f, file }
    d.tasks reserved ++ tasks names file (next + 1) (d.reserves reserved) rest

/-- The problem of a declaration that is to enter a table in which its name is taken. -/
def DeclTable.refusal (t : DeclTable) (d : Decl) : List Diagnostic :=
  (t.find? d.symbol).toList.map (Workshop.redefinitionProblem d)

/-- The problems that are noted when changes are carried out. -/
def Change.noted (names : Interner) (file : SourceFile) :
    (t : DeclTable) → (next : DeclId) → List Change → List Diagnostic
  | _, _, [] => []
  | t, next, .runComptime _ :: rest => noted names file t next rest
  | t, next, .reportNameless f :: rest =>
    Workshop.namelessProblem file f :: noted names file t next rest
  | t, next, .add symbol f :: rest =>
    let d : Decl := { id := next, name := names.nameOf symbol, symbol, item := f, file }
    t.refusal d ++ noted names file (t.enter d) (next + 1) rest

namespace Change

/-- The names under which changes add functions. -/
def addedNames (changes : List Change) : List String :=
  changes.filterMap fun
    | .add symbol _ => some symbol
    | _ => none

variable {names : Interner} {file : SourceFile} {next reserved : Nat} {changes : List Change}

theorem le_id_made : ∀ d ∈ made names file next changes, next ≤ d.id := by
  induction changes generalizing next with
  | nil => simp [made]
  | cons c changes ih =>
    cases c with
    | add symbol f =>
      rw [made]
      intro d hd
      rcases List.mem_cons.1 hd with rfl | hd
      · exact Nat.le_refl _
      · exact Nat.le_of_succ_le (ih d hd)
    | _ => exact ih

theorem id_made_lt : ∀ d ∈ made names file next changes,
    d.id < next + (made names file next changes).length := by
  induction changes generalizing next with
  | nil => simp [made]
  | cons c changes ih =>
    cases c with
    | add symbol f =>
      rw [made]
      intro d hd
      rw [List.length_cons]
      rcases List.mem_cons.1 hd with rfl | hd
      · exact Nat.lt_add_of_pos_right (Nat.succ_pos _)
      · have hlt := ih d hd
        rwa [Nat.add_assoc, Nat.add_comm 1] at hlt
    | _ => exact ih

/-- No two of the declarations that are made have one number. -/
theorem nodup_id_made : ((made names file next changes).map (·.id)).Nodup := by
  induction changes generalizing next with
  | nil => exact List.nodup_nil
  | cons c changes ih =>
    cases c with
    | add symbol f =>
      rw [made, List.map_cons, List.nodup_cons]
      refine ⟨fun hmem => ?_, ih⟩
      obtain ⟨d, hd, hid⟩ := List.mem_map.1 hmem
      have hle := le_id_made d hd
      rw [hid] at hle
      exact Nat.not_succ_le_self _ hle
    | _ => exact ih

theorem map_symbol_made : (made names file next changes).map (·.symbol) = addedNames changes := by
  induction changes generalizing next with
  | nil => rfl
  | cons c changes ih =>
    cases c with
    | add symbol f =>
      rw [made, List.map_cons, ih]
      rfl
    | _ => exact ih

/-- What changes make is of the file, and one of them adds it. -/
theorem mem_made {d : Decl} (h : d ∈ made names file next changes) :
    d.file = file ∧ .add d.symbol d.item ∈ changes := by
  induction changes generalizing next with
  | nil => cases h
  | cons c changes ih =>
    have hrest {next : DeclId} (h : d ∈ made names file next changes) :
        d.file = file ∧ .add d.symbol d.item ∈ c :: changes :=
      ⟨(ih h).1, List.mem_cons_of_mem _ (ih h).2⟩
    cases c with
    | runComptime block => exact hrest h
    | reportNameless f => exact hrest h
    | add symbol f =>
      rcases List.mem_cons.1 h with rfl | h
      · exact ⟨rfl, List.mem_cons_self ..⟩
      · exact hrest h

theorem resolved_tasks :
    BuildTask.resolved (tasks names file next reserved changes) =
      exported (made names file next changes) := by
  induction changes generalizing next reserved with
  | nil => rfl
  | cons c changes ih =>
    cases c with
    | runComptime block =>
      rw [tasks, BuildTask.resolved_cons, ih]
      rfl
    | reportNameless f => exact ih
    | add symbol f =>
      have happend (ts us : List BuildTask) :
          BuildTask.resolved (ts ++ us) = BuildTask.resolved ts ++ BuildTask.resolved us :=
        List.filterMap_append
      rw [tasks, made, exported_cons, happend, ih]
      congr 1
      unfold Decl.tasks
      split <;> rfl

/-- The declarations whose symbols are claimed are those that are resolved. -/
theorem claimed_tasks :
    (tasks names file next reserved changes).filterMap BuildTask.claims? =
      exported (made names file next changes) := by
  induction changes generalizing next reserved with
  | nil => rfl
  | cons c changes ih =>
    cases c with
    | runComptime block =>
      rw [tasks, List.filterMap_cons]
      exact ih
    | reportNameless f => exact ih
    | add symbol f =>
      rw [tasks, made, exported_cons, List.filterMap_append, ih]
      congr 1
      unfold Decl.tasks
      split <;> rfl

theorem mem_tasks {t : BuildTask} (h : t ∈ tasks names file next reserved changes) :
    (∃ block, .runComptime block ∈ changes ∧ t = .runComptime file block) ∨
      (∃ ticket d, t = .claim ticket d) ∨ ∃ d, t = .resolve d := by
  induction changes generalizing next reserved with
  | nil => cases h
  | cons c changes ih =>
    have hrest {next reserved : Nat} (h : t ∈ tasks names file next reserved changes) :
        (∃ block, .runComptime block ∈ c :: changes ∧ t = .runComptime file block) ∨
          (∃ ticket d, t = .claim ticket d) ∨ ∃ d, t = .resolve d := by
      rcases ih h with ⟨block, hblock, heq⟩ | hother
      · exact .inl ⟨block, List.mem_cons_of_mem _ hblock, heq⟩
      · exact .inr hother
    cases c with
    | runComptime block =>
      rcases List.mem_cons.1 h with heq | htail
      · exact .inl ⟨block, List.mem_cons_self .., heq⟩
      · exact hrest htail
    | reportNameless f => exact hrest h
    | add symbol f =>
      rcases List.mem_append.1 h with hown | htail
      · unfold Decl.tasks at hown
        split at hown
        · simp only [List.mem_cons, List.not_mem_nil, or_false] at hown
          rcases hown with heq | heq
          · exact .inr (.inl ⟨_, _, heq⟩)
          · exact .inr (.inr ⟨_, heq⟩)
        · cases hown
      · exact hrest htail

theorem runComptime_mem_tasks {block : Span} (h : .runComptime block ∈ changes) :
    .runComptime file block ∈ tasks names file next reserved changes := by
  induction changes generalizing next reserved with
  | nil => cases h
  | cons c changes ih =>
    cases c with
    | runComptime block' =>
      rcases List.mem_cons.1 h with heq | htail
      · cases heq
        exact List.mem_cons_self ..
      · exact List.mem_cons_of_mem _ (ih htail)
    | reportNameless f =>
      apply ih
      simpa using h
    | add symbol f =>
      apply List.mem_append_right
      apply ih
      simpa using h

end Change

/-! ## Carrying changes out -/

namespace Workshop

/-- A declaration enters if its name is free, and that it is not is a problem. -/
theorem enter_eq (s : Session) (d : Decl) : enter s d =
    { s with table := s.table.enter d, log := s.log.extend (s.table.refusal d) } := by
  unfold enter DeclTable.enter DeclTable.insert DeclTable.refusal
  cases s.table.find? d.symbol with
  | none => rw [Option.toList_none, List.map_nil, DiagnosticLog.extend, List.append_nil]
  | some existing => rfl

theorem refusal_eq_nil {t : DeclTable} {d : Decl} :
    t.refusal d = [] ↔ d.symbol ∉ t.decls.map (·.symbol) := by
  rw [← DeclTable.find?_eq_none, DeclTable.refusal, List.map_eq_nil_iff, Option.toList_eq_nil_iff]

theorem exportTasks_eq (s : Session) (d : Decl) :
    exportTasks s d = (d.tasks s.exports.reserved,
      { s with exports := { s.exports with reserved := d.reserves s.exports.reserved } }) := by
  unfold exportTasks Decl.tasks Decl.reserves
  split <;> rfl

/-- Adding a function makes a declaration, which enters if its name is free, and reserves a
ticket if it is exported. -/
theorem applyChange_add (file : SourceFile) (before : Session × List BuildTask) (symbol : String)
    (f : FunctionItem) : applyChange file before (.add symbol f) =
      ({ before.1 with
          nextDecl := before.1.nextDecl + 1
          exports :=
            { before.1.exports with
              reserved := (declare before.1 file symbol f).1.reserves before.1.exports.reserved }
          table := before.1.table.enter (declare before.1 file symbol f).1
          log := before.1.log.extend
            (before.1.table.refusal (declare before.1 file symbol f).1) },
        before.2 ++ (declare before.1 file symbol f).1.tasks before.1.exports.reserved) := by
  rw [applyChange]
  dsimp only
  rw [exportTasks_eq]
  dsimp only
  rw [enter_eq]
  rfl

/-- The names of a table after a declaration was to enter under a name. -/
theorem symbols_enter (t : DeclTable) (d : Decl) :
    (t.enter d).decls.map (·.symbol) =
      if d.symbol ∈ t.decls.map (·.symbol) then t.decls.map (·.symbol)
      else t.decls.map (·.symbol) ++ [d.symbol] := by
  unfold DeclTable.enter DeclTable.insert
  cases hfind : t.find? d.symbol with
  | none => rw [if_neg (DeclTable.find?_eq_none.1 hfind), List.map_append, List.map_singleton]
  | some existing =>
    rw [if_pos]
    by_contra hnew
    rw [DeclTable.find?_eq_none.2 hnew] at hfind
    cases hfind

theorem reserves_add (d : Decl) (reserved n : Nat) :
    d.reserves reserved + n = reserved + ((if d.isExport then [d] else []).length + n) := by
  unfold Decl.reserves
  split
  · simp only [List.length_singleton]
    omega
  · simp only [List.length_nil]
    omega

/-- What carrying out changes does. -/
theorem foldl_applyChange (file : SourceFile) (changes : List Change)
    (before : Session × List BuildTask) :
    changes.foldl (applyChange file) before =
      ({ before.1 with
          nextDecl := before.1.nextDecl +
            (Change.made before.1.names file before.1.nextDecl changes).length
          exports :=
            { before.1.exports with
              reserved := before.1.exports.reserved + (exported
                (Change.made before.1.names file before.1.nextDecl changes)).length }
          table := (Change.made before.1.names file before.1.nextDecl changes).foldl DeclTable.enter
            before.1.table
          log := before.1.log.extend
            (Change.noted before.1.names file before.1.table before.1.nextDecl changes) },
        before.2 ++ Change.tasks before.1.names file before.1.nextDecl before.1.exports.reserved
          changes) := by
  induction changes generalizing before with
  | nil =>
    rw [Change.noted, DiagnosticLog.extend, List.append_nil]
    exact Prod.ext rfl (List.append_nil _).symm
  | cons c changes ih =>
    rw [List.foldl_cons]
    cases c with
    | runComptime block =>
      have hfold := ih (before.1, before.2 ++ [.runComptime file block])
      rw [applyChange, hfold, Change.tasks, List.append_assoc]
      rfl
    | reportNameless f =>
      have hfold := ih (before.1.report (namelessProblem file f), before.2)
      rw [applyChange, hfold, Change.tasks, Change.made, Change.noted]
      unfold Session.report DiagnosticLog.push DiagnosticLog.extend
      dsimp only
      rw [List.append_assoc, List.singleton_append]
    | add symbol f =>
      have hfold := ih (applyChange file before (.add symbol f))
      rw [applyChange_add] at hfold
      rw [applyChange_add, hfold, Change.tasks, Change.made, Change.noted,
        ← DiagnosticLog.extend_extend, List.length_cons, Nat.add_comm (List.length _) 1,
        ← Nat.add_assoc, List.append_assoc, exported_cons, List.length_append, ← reserves_add]
      rfl

/-- No problem is noted exactly if every function has a name and no name is taken twice. -/
theorem noted_eq_nil {names : Interner} {file : SourceFile} {t : DeclTable} {next : DeclId}
    {changes : List Change} (hnodup : (t.decls.map (·.symbol)).Nodup) :
    Change.noted names file t next changes = [] ↔ (∀ f, .reportNameless f ∉ changes) ∧
      (t.decls.map (·.symbol) ++ Change.addedNames changes).Nodup := by
  induction changes generalizing t next with
  | nil => simpa [Change.noted, Change.addedNames] using hnodup
  | cons c changes ih =>
    cases c with
    | runComptime block => simpa [Change.noted, Change.addedNames] using ih hnodup
    | reportNameless f =>
      refine iff_of_false (List.cons_ne_nil _ _) fun h => ?_
      exact h.1 f (List.mem_cons_self ..)
    | add symbol f =>
      have hnames : Change.addedNames (.add symbol f :: changes) =
          symbol :: Change.addedNames changes := rfl
      rw [Change.noted, List.append_eq_nil_iff, refusal_eq_nil, hnames]
      by_cases hold : symbol ∈ t.decls.map (·.symbol)
      · -- the name is taken, which is noted
        refine iff_of_false (fun h => h.1 hold) fun h => ?_
        exact List.disjoint_of_nodup_append h.2 hold (List.mem_cons_self ..)
      · have hnodup' : (t.decls.map (·.symbol) ++ [symbol]).Nodup :=
          hnodup.append (List.nodup_singleton _) (List.disjoint_singleton.2 hold)
        have hsymbols := symbols_enter t
          { id := next, name := names.nameOf symbol, symbol, item := f, file }
        rw [if_neg hold] at hsymbols
        rw [ih (hsymbols ▸ hnodup'), hsymbols, List.append_assoc, List.singleton_append]
        simp [hold]

/-! ## Rebuilding -/

/-- What a rebuild does: it carries out some changes, if only none, and notes problems. -/
structure Rebuilt (s : Session) (names : Interner) (file : SourceFile) (changes : List Change)
    (problems : List Diagnostic) (r : Step) : Prop where
  table : r.state.session.table =
    (Change.made names file s.nextDecl changes).foldl DeclTable.enter s.table
  nextDecl : r.state.session.nextDecl =
    s.nextDecl + (Change.made names file s.nextDecl changes).length
  types : r.state.session.types = s.types
  resolutions : r.state.session.resolutions = s.resolutions
  linkSet : r.state.session.linkSet = s.linkSet
  entries : r.state.session.exports.entries = s.exports.entries
  reserved : r.state.session.exports.reserved =
    s.exports.reserved + (exported (Change.made names file s.nextDecl changes)).length
  log : r.state.session.log = s.log.extend problems
  spawned : r.spawned = Change.tasks names file s.nextDecl s.exports.reserved changes

/-- A revision is taken: it can be read, has no syntax error and is not blocked, each of its
functions has a name, and no name is taken twice. -/
structure Takes (w : Workshop) (path text : String) (changes : List Change) : Prop where
  read : readSource w.files w.session.settings.maxSourceSize path = .ok (.ok text)
  valid : (parse text).error = none
  unblocked : ChangePlan.Unblocked w.session.settings ((parse text).file path text)
    w.session.table.decls (parse text).items changes
  named : ∀ f, .reportNameless f ∉ changes
  distinct : (w.session.table.decls.map (·.symbol) ++ Change.addedNames changes).Nodup

variable {w : Workshop} {path text : String} {changes : List Change}

/-- The names a session knows once it has seen a text. -/
def namesAfter (w : Workshop) (text : String) : Interner :=
  w.session.names.internAll (parse text).names

/-- What blocks the plan for a revision decides how that fails. -/
theorem takeOver_outcome_eq (w : Workshop) (file : SourceFile) :
    (takeOver w file).outcome = match (planFor w file).blocker with
      | some b => .failed (b.toBuildError w.session.settings file)
      | none => .done := by
  have hsettings : ((planFor w file).changes.foldl (applyChange file)
      (shown w file, [])).1.settings = w.session.settings := by
    rw [foldl_applyChange]
    exact shown_settings
  rw [takeOver_eq]
  cases (planFor w file).blocker with
  | none => rfl
  | some b => exact congrArg (fun s => TaskOutcome.failed (b.toBuildError s file)) hsettings

/-- Taking over a text that was seen carries out its plan. -/
theorem takeOver_seen (w : Workshop) (path text : String) :
    Rebuilt w.session (w.namesAfter text) ((parse text).file path text)
      (planFor w ((parse text).file path text)).changes
      (Change.noted (w.namesAfter text) ((parse text).file path text) w.session.table
        w.session.nextDecl (planFor w ((parse text).file path text)).changes)
      (takeOver (seen w path text) ((parse text).file path text)) := by
  let file := (parse text).file path text
  obtain ⟨told, hshown⟩ : ∃ told, shown (seen w path text) file =
      { w.session with names := w.namesAfter text, told } := by
    refine ⟨(shown (seen w path text) file).told, ?_⟩
    unfold shown
    split <;> rfl
  have hfold := foldl_applyChange file
    (planFor w file).changes ({ w.session with names := w.namesAfter text, told }, [])
  have hplan : planFor (seen w path text) file = planFor w file := rfl
  rw [takeOver_eq, hshown, hplan, hfold]
  exact ⟨rfl, rfl, rfl, rfl, rfl, rfl, rfl, rfl, List.nil_append _⟩

section Live

variable (hlive : w.session.isCancelled = false)

include hlive

theorem rebuilt_unread {e : BuildError} (file : SourceFile)
    (hread : readSource w.files w.session.settings.maxSourceSize path = .error e) :
    Rebuilt w.session w.session.names file [] [] (w.rebuild path) := by
  have hextend := DiagnosticLog.extend_nil w.session.log
  rw [rebuild_eq_failed hlive hread]
  exact ⟨rfl, rfl, rfl, rfl, rfl, rfl, rfl, hextend.symm, rfl⟩

theorem rebuilt_refused {problem : Diagnostic} (file : SourceFile)
    (hread : readSource w.files w.session.settings.maxSourceSize path = .ok (.error problem)) :
    Rebuilt w.session w.session.names file [] [problem] (w.rebuild path) := by
  rw [rebuild_eq_refused hlive hread]
  exact ⟨rfl, rfl, rfl, rfl, rfl, rfl, rfl, rfl, rfl⟩

theorem rebuilt_invalid {e : SyntaxError}
    (hread : readSource w.files w.session.settings.maxSourceSize path = .ok (.ok text))
    (hinvalid : (parse text).error = some e) :
    Rebuilt w.session w.session.names ((parse text).file path text) []
      [.ofSyntaxError ((parse text).file path text) e] (w.rebuild path) := by
  rw [rebuild_eq_report hlive hread hinvalid]
  exact ⟨rfl, rfl, rfl, rfl, rfl, rfl, rfl, rfl, rfl⟩

theorem rebuilt_taken
    (hread : readSource w.files w.session.settings.maxSourceSize path = .ok (.ok text))
    (hvalid : (parse text).error = none) :
    Rebuilt w.session (w.namesAfter text) ((parse text).file path text)
      (planFor w ((parse text).file path text)).changes
      (Change.noted (w.namesAfter text) ((parse text).file path text) w.session.table
        w.session.nextDecl (planFor w ((parse text).file path text)).changes)
      (w.rebuild path) := by
  rw [rebuild_eq_takeOver hlive hread hvalid]
  exact takeOver_seen w path text

end Live

/-- A rebuild carries out some changes. If no two live declarations have one name, it goes well
only if it takes a revision. -/
theorem rebuild_carries_out (w : Workshop) (path : String) :
    ∃ names file changes problems,
      Rebuilt w.session names file changes problems (w.rebuild path) ∧
      ((w.session.table.decls.map (·.symbol)).Nodup → (w.rebuild path).outcome = .done →
        problems = [] → ∃ text, names = w.namesAfter text ∧
          file = (parse text).file path text ∧ w.Takes path text changes) := by
  have hextend := DiagnosticLog.extend_nil w.session.log
  rcases rebuild_cases w path with ⟨outcome, hfailed, hrebuild⟩ | ⟨problem, hrebuild⟩ |
    ⟨text, hread, ⟨e, -, hrebuild⟩ | ⟨hvalid, hrebuild⟩⟩
  · rw [hrebuild]
    refine ⟨w.session.names, (parse "").file path "", [], [], ?_, ?_⟩
    · exact ⟨rfl, rfl, rfl, rfl, rfl, rfl, rfl, hextend.symm, rfl⟩
    · exact fun _ hdone => absurd hdone hfailed
  · rw [hrebuild]
    refine ⟨w.session.names, (parse "").file path "", [], [problem], ?_, ?_⟩
    · exact ⟨rfl, rfl, rfl, rfl, rfl, rfl, rfl, rfl, rfl⟩
    · exact fun _ _ hnone => absurd hnone (List.cons_ne_nil _ _)
  · rw [hrebuild]
    refine ⟨w.session.names, (parse "").file path "", [],
      [.ofSyntaxError ((parse text).file path text) e], ?_, ?_⟩
    · exact ⟨rfl, rfl, rfl, rfl, rfl, rfl, rfl, rfl, rfl⟩
    · exact fun _ _ hnone => absurd hnone (List.cons_ne_nil _ _)
  · rw [hrebuild]
    refine ⟨_, _, _, _, takeOver_seen w path text, fun hnodup hdone hnone => ?_⟩
    refine ⟨text, rfl, rfl, ?_⟩
    obtain ⟨hnamed, hdistinct⟩ := (noted_eq_nil hnodup).1 hnone
    have hplan : (planFor w ((parse text).file path text)).blocker = none :=
      takeOver_outcome (w := seen w path text).1 hdone
    exact ⟨hread, hvalid, ChangePlan.unblocked_of_blocker hplan, hnamed, hdistinct⟩

/-- A rebuild carries out some changes, and goes well only if it takes a revision. -/
theorem exists_rebuilt (hnodup : (w.session.table.decls.map (·.symbol)).Nodup) (path : String) :
    ∃ names file changes problems,
      Rebuilt w.session names file changes problems (w.rebuild path) ∧
      ((w.rebuild path).outcome = .done → problems = [] →
        ∃ text, names = w.namesAfter text ∧ file = (parse text).file path text ∧
          w.Takes path text changes) := by
  obtain ⟨names, file, changes, problems, hrebuilt, htakes⟩ := rebuild_carries_out w path
  exact ⟨names, file, changes, problems, hrebuilt, htakes hnodup⟩

theorem rebuild_types (w : Workshop) (path : String) :
    (w.rebuild path).state.session.types = w.session.types := by
  obtain ⟨names, file, changes, problems, hrebuilt, -⟩ := rebuild_carries_out w path
  exact hrebuilt.types

theorem rebuild_resolutions (w : Workshop) (path : String) :
    (w.rebuild path).state.session.resolutions = w.session.resolutions := by
  obtain ⟨names, file, changes, problems, hrebuilt, -⟩ := rebuild_carries_out w path
  exact hrebuilt.resolutions

theorem rebuild_linkSet (w : Workshop) (path : String) :
    (w.rebuild path).state.session.linkSet = w.session.linkSet := by
  obtain ⟨names, file, changes, problems, hrebuilt, -⟩ := rebuild_carries_out w path
  exact hrebuilt.linkSet

theorem Takes.rebuilt (h : w.Takes path text changes) (hlive : w.session.isCancelled = false) :
    (w.rebuild path).outcome = .done ∧
      Rebuilt w.session (w.namesAfter text) ((parse text).file path text) changes []
        (w.rebuild path) := by
  have hnodup : (w.session.table.decls.map (·.symbol)).Nodup :=
    h.distinct.sublist (List.sublist_append_left _ _)
  have hplan : planFor w ((parse text).file path text) = { changes } := h.unblocked.ofItems_eq
  have hrebuilt := rebuilt_taken hlive h.read h.valid
  rw [hplan, (noted_eq_nil hnodup).2 ⟨h.named, h.distinct⟩] at hrebuilt
  refine ⟨?_, hrebuilt⟩
  rw [rebuild_eq_takeOver hlive h.read h.valid]
  exact takeOver_outcome.2 (congrArg ChangePlan.blocker hplan)

end Workshop

end IncrementalBuild
