import IncrementalBuild.Proofs.Session.Changes
import IncrementalBuild.Session.Tasks

/-!
# The live declarations after a revision

Taking a revision over adds declarations at the end of the table and changes none that is
there. So a name that was live keeps its declaration, and another one gets the first
function that the changes add under it.
-/

set_option autoImplicit false

namespace IncrementalBuild

/-- What a declaration says, apart from its identity. -/
def Decl.content (d : Decl) : String × FunctionItem × SourceFile := (d.symbol, d.item, d.file)

namespace DeclTable

variable {t : DeclTable} {d : Decl} {symbol : String}

/-- The table with a declaration more, if its name is free. -/
def enter (t : DeclTable) (d : Decl) : DeclTable :=
  match t.insert d with
  | .ok t => t
  | .error _ => t

/-- A table in which names are unique, and every declaration is a function of the file it says
it is from, under the name of the function. -/
structure Sound (t : DeclTable) : Prop where
  nodup : (t.decls.map (·.symbol)).Nodup
  named : ∀ d ∈ t.decls, d.item.name = some d.symbol
  parsed : ∀ d ∈ t.decls, .function d.item ∈ (parse d.file.text).items

theorem find?_enter :
    (t.enter d).find? symbol =
      (t.find? symbol).or (if d.symbol = symbol then some d else none) := by
  unfold enter insert
  cases hfind : t.find? d.symbol with
  | some existing =>
    dsimp only
    by_cases hsymbol : d.symbol = symbol
    · rw [← hsymbol, hfind, Option.some_or]
    · rw [if_neg hsymbol, Option.or_none]
  | none =>
    simp only [find?, List.find?_append]
    congr 1
    by_cases hsymbol : d.symbol = symbol
    · simp [hsymbol]
    · simp [hsymbol]

theorem find?_eq_none : t.find? symbol = none ↔ symbol ∉ t.decls.map (·.symbol) := by
  simp [find?]

theorem Sound.find?_eq_some (h : t.Sound) :
    t.find? symbol = some d ↔ d ∈ t.decls ∧ d.symbol = symbol := by
  constructor
  · intro hfind
    exact ⟨List.mem_of_find?_eq_some hfind, by simpa using List.find?_some hfind⟩
  · rintro ⟨hd, hsymbol⟩
    cases hfind : t.find? symbol with
    | none => exact absurd (List.mem_map.2 ⟨d, hd, hsymbol⟩) (find?_eq_none.1 hfind)
    | some d' =>
      have hd' : d'.symbol = symbol := by simpa using List.find?_some hfind
      rw [List.inj_on_of_nodup_map h.nodup (List.mem_of_find?_eq_some hfind) hd
        (hd'.trans hsymbol.symm)]

theorem sound_empty : DeclTable.Sound {} := ⟨by simp, by simp, by simp⟩

/-- A function of a file enters under its name. -/
theorem Sound.enter (h : t.Sound) (hname : d.item.name = some d.symbol)
    (hparsed : .function d.item ∈ (parse d.file.text).items) : (t.enter d).Sound := by
  unfold DeclTable.enter insert
  cases hfind : t.find? d.symbol with
  | some existing => exact h
  | none =>
    have hnew := find?_eq_none.1 hfind
    have hall {P : Decl → Prop} (hold : ∀ d' ∈ t.decls, P d') (hd : P d) :
        ∀ d' ∈ t.decls ++ [d], P d' := by
      simpa [or_imp, forall_and] using ⟨hold, hd⟩
    refine ⟨?_, hall h.named hname, hall h.parsed hparsed⟩
    rw [List.map_append, List.map_singleton]
    exact h.nodup.append (List.nodup_singleton _) (List.disjoint_singleton.2 hnew)

end DeclTable

namespace Workshop

variable {file : SourceFile} {symbol : String} {before : Session × List BuildTask}

theorem enter_table (s : Session) (d : Decl) : (enter s d).table = s.table.enter d := by
  unfold enter DeclTable.enter
  cases s.table.insert d <;> rfl

theorem exportTasks_table (s : Session) (d : Decl) : (exportTasks s d).2.table = s.table := by
  unfold exportTasks
  split <;> rfl

theorem applyChange_add_table (f : FunctionItem) :
    (applyChange file before (.add symbol f)).1.table =
      before.1.table.enter (declare before.1 file symbol f).1 := by
  rw [applyChange]
  dsimp only
  rw [enter_table, exportTasks_table]
  rfl

/-- A change gives a name the function it adds, unless the name is taken. -/
theorem find?_applyChange (c : Change) :
    ((applyChange file before c).1.table.find? symbol).map Decl.content =
      ((before.1.table.find? symbol).map Decl.content).or
        ((c.added? symbol).map fun f => (symbol, f, file)) := by
  cases c with
  | runComptime block => simp [applyChange, Change.added?]
  | reportNameless f => simp [applyChange, Change.added?, Session.report]
  | add name f =>
    rw [applyChange_add_table, DeclTable.find?_enter, Option.map_or]
    congr 1
    by_cases hname : name = symbol
    · subst hname
      simp [Change.added?, declare, Decl.content]
    · simp [Change.added?, declare, hname]

/-- Changes give a name the first function they add under it, unless the name was taken. -/
theorem find?_foldl_applyChange (changes : List Change) :
    ((changes.foldl (applyChange file) before).1.table.find? symbol).map Decl.content =
      ((before.1.table.find? symbol).map Decl.content).or
        ((firstAdded? symbol changes).map fun f => (symbol, f, file)) := by
  induction changes generalizing before with
  | nil => simp [firstAdded?]
  | cons c changes ih =>
    have hcons : firstAdded? symbol (c :: changes) =
        (c.added? symbol).or (firstAdded? symbol changes) := by
      rw [firstAdded?, List.findSome?_cons, firstAdded?]
      cases c.added? symbol <;> rfl
    rw [List.foldl_cons, ih, find?_applyChange, hcons, Option.map_or, Option.or_assoc]

/-- Changes that add functions of the file under their names keep a table sound. -/
theorem sound_foldl_applyChange {changes : List Change} (h : before.1.table.Sound)
    (hadded : ∀ name f, .add name f ∈ changes →
      f.name = some name ∧ .function f ∈ (parse file.text).items) :
    (changes.foldl (applyChange file) before).1.table.Sound := by
  induction changes generalizing before with
  | nil => exact h
  | cons c changes ih =>
    refine ih ?_ fun name f hf => hadded name f (List.mem_cons_of_mem _ hf)
    cases c with
    | runComptime block => exact h
    | reportNameless f => exact h
    | add name f =>
      obtain ⟨hname, hparsed⟩ := hadded name f (List.mem_cons_self ..)
      rw [applyChange_add_table]
      exact h.enter hname hparsed

/-! ## Taking a revision over -/

variable {w : Workshop} {path text : String}

/-- The plan of a session for a revision. -/
def planFor (w : Workshop) (file : SourceFile) : ChangePlan :=
  ChangePlan.ofItems w.session.settings file w.session.table.decls file.items

/-- A session that has told the tree of a revision, if it was asked to. -/
def shown (w : Workshop) (file : SourceFile) : Session :=
  if w.session.settings.verbosity.tree then w.session.tell (treeLines w.session.names file)
  else w.session

theorem shown_table : (shown w file).table = w.session.table := by
  unfold shown
  split <;> rfl

theorem shown_settings : (shown w file).settings = w.session.settings := by
  unfold shown
  split <;> rfl

/-- A revision is taken over by carrying out its plan, and that fails if the plan is blocked. -/
theorem takeOver_eq (w : Workshop) (file : SourceFile) :
    takeOver w file =
      let r := (planFor w file).changes.foldl (applyChange file) (shown w file, [])
      { state := { w with session := r.1 }
        spawned := r.2
        outcome := match (planFor w file).blocker with
          | some b => .failed (b.toBuildError r.1.settings file)
          | none => .done } := by
  rw [planFor, ← shown_settings, ← shown_table]
  rfl

theorem takeOver_outcome :
    (takeOver w file).outcome = .done ↔ (planFor w file).blocker = none := by
  rw [takeOver_eq]
  dsimp only
  cases (planFor w file).blocker <;> simp

/-- A name that is live keeps its declaration, and another one gets the first function that is
added under it. -/
theorem find?_takeOver :
    ((takeOver w file).state.session.table.find? symbol).map Decl.content =
      ((w.session.table.find? symbol).map Decl.content).or
        ((firstAdded? symbol (planFor w file).changes).map fun f => (symbol, f, file)) := by
  rw [takeOver_eq]
  dsimp only
  rw [find?_foldl_applyChange, shown_table]

theorem sound_takeOver (h : w.session.table.Sound) (hitems : file.items = (parse file.text).items) :
    (takeOver w file).state.session.table.Sound := by
  rw [takeOver_eq]
  refine sound_foldl_applyChange (by rwa [shown_table]) fun name f hf => ?_
  rw [← hitems]
  exact ChangePlan.added_of_mem hf

/-- The workshop that has seen the text of a revision. -/
def seen (w : Workshop) (path text : String) : Workshop :=
  w.modify fun s =>
    { s.tell (if s.settings.verbosity.tokens then tokenLines path text else []) with
      names := s.names.internAll (parse text).names }

/-- What a rebuild does: nothing to a session that is gone or whose file cannot be read, it
reports a file that is no text or no source file, and takes any other over. -/
theorem rebuild_cases (w : Workshop) (path : String) :
    (∃ outcome, outcome ≠ .done ∧ w.rebuild path = { state := w, outcome }) ∨
    (∃ problem, w.rebuild path = { state := w.modify (·.report problem) }) ∨
    ∃ text, readSource w.files w.session.settings.maxSourceSize path = .ok (.ok text) ∧
      ((∃ e, (parse text).error = some e ∧ w.rebuild path =
          { state := (seen w path text).modify
              (·.report (.ofSyntaxError ((parse text).file path text) e)) }) ∨
        ((parse text).error = none ∧
          w.rebuild path = takeOver (seen w path text) ((parse text).file path text))) := by
  unfold rebuild
  split
  · exact .inl ⟨_, by simp, rfl⟩
  · split
    · exact .inl ⟨_, by simp, rfl⟩
    · exact .inr (.inl ⟨_, rfl⟩)
    · rename_i text hread
      refine .inr (.inr ⟨text, hread, ?_⟩)
      unfold takeSource
      dsimp only
      split
      · rename_i e he
        exact .inl ⟨e, he, rfl⟩
      · rename_i hnone
        exact .inr ⟨hnone, rfl⟩

/-- A rebuild fails if the file cannot be read. -/
theorem rebuild_eq_failed {e : BuildError} (hlive : w.session.isCancelled = false)
    (hread : readSource w.files w.session.settings.maxSourceSize path = .error e) :
    w.rebuild path = { state := w, outcome := .failed e } := by
  unfold rebuild
  rw [hlive, if_neg (by decide), hread]

/-- A file that is no source file is reported. -/
theorem rebuild_eq_refused {problem : Diagnostic} (hlive : w.session.isCancelled = false)
    (hread : readSource w.files w.session.settings.maxSourceSize path = .ok (.error problem)) :
    w.rebuild path = { state := w.modify (·.report problem) } := by
  unfold rebuild
  rw [hlive, if_neg (by decide), hread]

/-- A source file with a syntax error is not taken over, but the error is reported. -/
theorem rebuild_eq_report {e : SyntaxError} (hlive : w.session.isCancelled = false)
    (hread : readSource w.files w.session.settings.maxSourceSize path = .ok (.ok text))
    (hinvalid : (parse text).error = some e) :
    w.rebuild path =
      { state := (seen w path text).modify
          (·.report (.ofSyntaxError ((parse text).file path text) e)) } := by
  unfold rebuild
  rw [hlive, if_neg (by decide), hread]
  unfold takeSource
  dsimp only
  rw [hinvalid]
  rfl

/-- A source file without syntax errors is taken over, unless the session is gone. -/
theorem rebuild_eq_takeOver (hlive : w.session.isCancelled = false)
    (hread : readSource w.files w.session.settings.maxSourceSize path = .ok (.ok text))
    (hvalid : (parse text).error = none) :
    w.rebuild path = takeOver (seen w path text) ((parse text).file path text) := by
  unfold rebuild
  rw [hlive, if_neg (by decide), hread]
  unfold takeSource
  dsimp only
  rw [hvalid]
  rfl

end Workshop

end IncrementalBuild
