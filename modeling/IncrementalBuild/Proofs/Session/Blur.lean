import IncrementalBuild.Proofs.Session.Runs
import IncrementalBuild.Proofs.Task.Simulation

/-!
# Names out of focus

A session hands out names from a table that grows with every text it reads. The number of a name
depends on the texts read before, so two sessions that do the same may use other numbers. A blur
says what is left of a name if one does not look too closely: all of it, or nothing. A session that
is looked at through a blur shows everything its later cycles depend on, with its names as the blur
leaves them. It does not show the number of its cycle, how it came to wait and what it watches.

The tables of a session find things by symbol and by identity, never by name, so they work the same
through a blur.
-/

set_option autoImplicit false

namespace IncrementalBuild

/-- What is left of names, of the table that hands them out and of the lines that tell of them. To
look twice shows no less than to look once, and what is seen of the names that a table hands out
depends on what is seen of the table. -/
structure Blur where
  name : Name → Name
  table : Interner → Interner
  lines : List String → List String
  name_name : ∀ n, name (name n) = name n
  table_table : ∀ t, table (table t) = table t
  name_nameOf : ∀ t text, name ((table t).nameOf text) = name (t.nameOf text)
  table_internAll : ∀ t texts, table ((table t).internAll texts) = table (t.internAll texts)
  lines_append : ∀ told more, lines (lines told ++ more) = lines (told ++ more)

namespace Blur

/-- Names are seen as they are. -/
def sharp : Blur where
  name := id
  table := id
  lines := id
  name_name _ := rfl
  table_table _ := rfl
  name_nameOf _ _ := rfl
  table_internAll _ _ := rfl
  lines_append _ _ := rfl

/-- Nothing is seen of names, nor of what is told, if that shows them. -/
def blind (showsNames : Bool) : Blur where
  name _ := .empty
  table _ := .empty
  lines told := if showsNames then [] else told
  name_name _ := rfl
  table_table _ := rfl
  name_nameOf _ _ := rfl
  table_internAll _ _ := rfl
  lines_append _ _ := by cases showsNames <;> rfl

variable (b : Blur)

theorem lines_lines (told : List String) : b.lines (b.lines told) = b.lines told := by
  have happend := b.lines_append told []
  rwa [List.append_nil, List.append_nil] at happend

end Blur

variable (b : Blur)

/-! ## What is seen -/

def Decl.blur (d : Decl) : Decl := { d with name := b.name d.name }

def FunctionValue.blur (f : FunctionValue) : FunctionValue :=
  { f with declName := b.name f.declName }

def Resolution.blur : Resolution → Resolution
  | .resolved type value => .resolved type (value.map (·.blur b))
  | .failed => .failed

def Memo.blur : Memo Resolution → Memo Resolution
  | .empty => .empty
  | .pending => .pending
  | .resolved r => .resolved (r.blur b)

def CodegenCall.blur (c : CodegenCall) : CodegenCall := { c with declName := b.name c.declName }

def ExportEntry.blur (e : ExportEntry) : ExportEntry := { e with decl := e.decl.blur b }

def ExportTable.blur (t : ExportTable) : ExportTable :=
  { t with entries := t.entries.map (·.blur b) }

def DeclTable.blur (t : DeclTable) : DeclTable := ⟨t.decls.map (·.blur b)⟩

def LinkSet.blur (s : LinkSet) : LinkSet := ⟨s.functions.map (·.blur b)⟩

def BuildTask.blur : BuildTask → BuildTask
  | .rebuild path => .rebuild path
  | .claim ticket d => .claim ticket (d.blur b)
  | .resolve d => .resolve (d.blur b)
  | .runComptime file block => .runComptime file block
  | .generate call => .generate (call.blur b)
  | .link f => .link (f.blur b)

/-- An entry of a journal without the number of its cycle. -/
def JournalEntry.unnumbered : JournalEntry → JournalEntry
  | .link _ functions output => .link 0 functions output
  | e => e

/-- Of a phase it is seen whether the session was torn down. -/
def SessionPhase.blur (p : SessionPhase) : SessionPhase :=
  if p = .cancelled then .cancelled else .awaitingStart

/-- Of a session it is seen what its next cycles depend on and what it noted, but not the number of
its cycle, whether it was started and what it watches. -/
def Session.blur (s : Session) : Session :=
  { s with
    phase := s.phase.blur
    isStarted := false
    cycle := 0
    names := b.table s.names
    table := s.table.blur b
    exports := s.exports.blur b
    linkSet := s.linkSet.blur b
    resolutions := s.resolutions.map fun (id, m) => (id, m.blur b)
    watcher := {}
    watched := []
    journal := s.journal.map (·.unnumbered)
    told := b.lines s.told }

/-- Of the native runtime it is seen what asking for it yields, not whether it was asked for. -/
def Toolchain.blur (t : Toolchain) : Toolchain :=
  { t.searched with calls := t.calls.map (·.blur b) }

def Workshop.blur (w : Workshop) : Workshop := ⟨w.session.blur b, w.toolchain.blur b, w.files⟩

/-- What is seen of what a task leaves. -/
def TaskStep.blur (r : Workshop.Step) : Workshop.Step := r.view (·.blur b) (·.blur b)

/-- What is seen of a toolchain does not depend on whether the search was made. -/
theorem Toolchain.blur_eq {t t' : Toolchain} (h : t.searched = t'.searched) :
    t.blur b = t'.blur b :=
  congrArg (fun t : Toolchain => { t with calls := t.calls.map (CodegenCall.blur b) }) h

/-! ## To look twice is to look once -/

@[simp] theorem Decl.blur_blur (d : Decl) : (d.blur b).blur b = d.blur b := by
  unfold blur
  dsimp only
  rw [b.name_name]

@[simp] theorem FunctionValue.blur_blur (f : FunctionValue) : (f.blur b).blur b = f.blur b := by
  unfold blur
  dsimp only
  rw [b.name_name]

@[simp] theorem CodegenCall.blur_blur (c : CodegenCall) : (c.blur b).blur b = c.blur b := by
  unfold blur
  dsimp only
  rw [b.name_name]

@[simp] theorem Resolution.blur_blur (r : Resolution) : (r.blur b).blur b = r.blur b := by
  cases r with
  | resolved type value => cases value <;> simp [blur]
  | failed => rfl

@[simp] theorem Memo.blur_blur (m : Memo Resolution) :
    (m.blur b).blur b = m.blur b := by
  cases m <;> simp [blur]

@[simp] theorem ExportEntry.blur_blur (e : ExportEntry) : (e.blur b).blur b = e.blur b := by
  simp [blur]

@[simp] theorem ExportTable.blur_blur (t : ExportTable) : (t.blur b).blur b = t.blur b := by
  simp [blur]

@[simp] theorem DeclTable.blur_blur (t : DeclTable) : (t.blur b).blur b = t.blur b := by
  simp [blur]

@[simp] theorem LinkSet.blur_blur (s : LinkSet) : (s.blur b).blur b = s.blur b := by
  simp [blur]

@[simp] theorem BuildTask.blur_blur (t : BuildTask) : (t.blur b).blur b = t.blur b := by
  cases t <;> simp [blur]

@[simp] theorem SessionPhase.blur_blur (p : SessionPhase) : p.blur.blur = p.blur := by
  cases p <;> rfl

@[simp] theorem JournalEntry.unnumbered_unnumbered (e : JournalEntry) :
    e.unnumbered.unnumbered = e.unnumbered := by
  cases e <;> rfl

@[simp] theorem Session.blur_blur (s : Session) : (s.blur b).blur b = s.blur b := by
  simp [blur, b.table_table, b.lines_lines]

@[simp] theorem Toolchain.blur_blur (t : Toolchain) : (t.blur b).blur b = t.blur b := by
  have hcalls : (t.calls.map (CodegenCall.blur b)).map (CodegenCall.blur b) =
      t.calls.map (CodegenCall.blur b) := by simp
  exact congrArg (fun calls => { t.blur b with calls }) hcalls

@[simp] theorem Workshop.blur_blur (w : Workshop) : (w.blur b).blur b = w.blur b := by
  simp [blur]

@[simp] theorem TaskStep.blur_blur (r : Workshop.Step) : (r.blur b).blur b = r.blur b := by
  simp [blur, view]

/-! ## What tables find -/

namespace ExportTable

theorem entry?_blur (t : ExportTable) (symbol : String) :
    entry? (t.blur b) symbol = (t.entry? symbol).map (·.blur b) := List.find?_map ..

theorem replace_blur (t : ExportTable) (e : ExportEntry) :
    (t.blur b).replace (e.blur b) = (t.replace e).blur b := by
  unfold replace blur
  dsimp only
  rw [List.map_map, List.map_map]
  refine congrArg (ExportTable.mk · t.reserved) (List.map_congr_left fun old _ => ?_)
  exact (apply_ite (ExportEntry.blur b) _ _ _).symm

theorem claim_blur (t : ExportTable) (ticket : ClaimTicket) (d : Decl) :
    (t.blur b).claim ticket (d.blur b) =
      ((t.claim ticket d).1.map fun c => ⟨c.kept.blur b, c.rejected.blur b⟩,
        (t.claim ticket d).2.blur b) := by
  have hsymbol : (d.blur b).symbol = d.symbol := rfl
  have hreplace := t.replace_blur b ⟨ticket, d⟩
  unfold claim
  rw [entry?_blur, hsymbol]
  cases t.entry? d.symbol with
  | none =>
    unfold blur
    rw [List.map_append]
    rfl
  | some held =>
    dsimp only [Option.map_some]
    split
    · rename_i hsmaller
      rw [if_pos (show held.ticket.number < ticket.number from hsmaller)]
      rfl
    · rename_i hlarger
      rw [if_neg (show ¬held.ticket.number < ticket.number from hlarger)]
      exact congrArg (Prod.mk _) hreplace

end ExportTable

namespace DeclTable

theorem find?_blur (t : DeclTable) (symbol : String) :
    (t.blur b).find? symbol = (t.find? symbol).map (·.blur b) := List.find?_map ..

theorem enter_blur (t : DeclTable) (d : Decl) :
    (t.blur b).enter (d.blur b) = (t.enter d).blur b := by
  have hsymbol : (d.blur b).symbol = d.symbol := rfl
  unfold enter insert
  rw [find?_blur, hsymbol]
  cases t.find? d.symbol with
  | none =>
    unfold blur
    dsimp only [Option.map_none]
    rw [List.map_append, List.map_singleton]
  | some existing => rfl

theorem refusal_blur (t : DeclTable) (d : Decl) :
    (t.blur b).refusal (d.blur b) = t.refusal d := by
  have hsymbol : (d.blur b).symbol = d.symbol := rfl
  unfold refusal
  rw [find?_blur, hsymbol]
  cases t.find? d.symbol <;> rfl

end DeclTable

theorem LinkSet.insert_blur (s : LinkSet) (f : FunctionValue) :
    (s.blur b).insert (f.blur b) = ((s.insert f).1, (s.insert f).2.blur b) := by
  have hcontains : (s.blur b).contains (f.blur b).symbol = s.contains f.symbol := List.any_map
  unfold insert
  rw [hcontains]
  split
  · rfl
  · unfold blur
    dsimp only
    rw [List.map_append, List.map_singleton]

namespace Session

theorem resolution_blur (s : Session) (id : DeclId) :
    (s.blur b).resolution id = (s.resolution id).blur b := by
  have hlookup (kept : List (DeclId × Memo Resolution)) :
      List.lookup id (kept.map fun x => (x.1, x.2.blur b)) =
        (List.lookup id kept).map (·.blur b) := by
    induction kept with
    | nil => rfl
    | cons x kept ih =>
      rw [List.map_cons, List.lookup_cons, List.lookup_cons]
      split
      · rfl
      · exact ih
  unfold resolution
  rw [show (s.blur b).resolutions = s.resolutions.map fun x => (x.1, x.2.blur b) from rfl, hlookup]
  cases List.lookup id s.resolutions <;> rfl

theorem setResolution_blur (s : Session) (id : DeclId) (m : Memo Resolution) :
    (s.setResolution id m).blur b = (s.blur b).setResolution id (m.blur b) := by
  have hothers : (s.resolutions.map fun x => (x.1, x.2.blur b)).filter (·.1 != id) =
      (s.resolutions.filter (·.1 != id)).map fun x => (x.1, x.2.blur b) := List.filter_map
  unfold setResolution blur
  dsimp only
  rw [List.map_append, hothers]
  rfl

theorem refersTo_blur (s : Session) (id : DeclId) : (s.blur b).refersTo id = s.refersTo id := by
  unfold refersTo
  exact congrArg₂ or List.any_map List.any_map

theorem linkables_blur (s : Session) : (s.blur b).linkables = s.linkables := List.map_map

theorem held_blur (r : Resolution) : (r.blur b).held = r.held := by
  cases r with
  | resolved type value => cases value <;> rfl
  | failed => rfl

theorem forget_blur (s : Session) : s.forget.blur b = (s.blur b).forget := by
  have hpart (keeps : DeclId → Bool) :
      ((s.blur b).resolutions.filter fun x => keeps x.1) =
        (s.resolutions.filter fun x => keeps x.1).map fun x => (x.1, x.2.blur b) := List.filter_map
  have hheld (kept : List (DeclId × Memo Resolution)) :
      ((kept.map fun x => (x.1, x.2.blur b)).flatMap fun x =>
          (x.2.peek.map Resolution.held).getD []) =
        kept.flatMap fun x => (x.2.peek.map Resolution.held).getD [] := by
    rw [List.flatMap_map]
    congr 1
    funext x
    cases x.2 with
    | resolved r => exact held_blur b r
    | empty => rfl
    | pending => rfl
  have hrefers : (s.blur b).refersTo = s.refersTo := funext (s.refersTo_blur b)
  unfold forget
  dsimp only
  rw [hrefers, hpart s.refersTo, hpart fun id => !s.refersTo id, hheld]
  rfl

end Session

end IncrementalBuild
