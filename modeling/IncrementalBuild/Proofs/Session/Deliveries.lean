import IncrementalBuild.Proofs.Session.FirstCycle
import IncrementalBuild.Proofs.Session.Runs

/-!
# What a cycle delivers

The declarations that a cycle makes and that are exported come to their findings, one after the
other, and each function that is found asks for its code and for its way into the link set. The
tables of a session keep the first that comes under a symbol: a live declaration, an export, a
function to link.
-/

set_option autoImplicit false

namespace IncrementalBuild

/-! ## Tables that keep what comes first -/

/-- A table to which things are added one after the other, and in which a name that is taken stays
as it is, has the first of them that has the name. -/
theorem find?_foldl_add {σ α : Type} {name : α → String} {add : σ → α → σ}
    {look : σ → String → Option α}
    (hadd : ∀ s a symbol,
      look (add s a) symbol = (look s symbol).or (if name a = symbol then some a else none))
    (as : List α) (s : σ) (symbol : String) :
    look (as.foldl add s) symbol = (look s symbol).or (as.find? (name · == symbol)) := by
  induction as generalizing s with
  | nil => exact (Option.or_none).symm
  | cons a as ih =>
    rw [List.foldl_cons, ih, hadd, Option.or_assoc, List.find?_cons]
    by_cases hname : name a = symbol
    · simp [hname]
    · have hname' : (name a == symbol) = false := beq_eq_false_iff_ne.2 hname
      rw [hname', if_neg hname, Option.none_or]

/-- What is in a table without repeated names is found under its name. -/
theorem find?_of_mem {α : Type} {name : α → String} {as : List α} (h : (as.map name).Nodup) {a : α}
    (ha : a ∈ as) : as.find? (name · == name a) = some a := by
  cases hfind : as.find? (name · == name a) with
  | none => exact absurd (beq_self_eq_true _) (List.find?_eq_none.1 hfind a ha)
  | some b =>
    have hname : name b = name a := by simpa using List.find?_some hfind
    rw [List.inj_on_of_nodup_map h (List.mem_of_find?_eq_some hfind) ha hname]

theorem DeclTable.find?_foldl_enter (decls : List Decl) (t : DeclTable) (symbol : String) :
    (decls.foldl enter t).find? symbol = (t.find? symbol).or (decls.find? (·.symbol == symbol)) :=
  find?_foldl_add (fun _ _ _ => find?_enter) decls t symbol

namespace LinkSet

/-- The function to link that has a symbol. -/
def find? (s : LinkSet) (symbol : String) : Option FunctionValue :=
  s.functions.find? (·.symbol == symbol)

variable {s : LinkSet} {f : FunctionValue} {symbol : String}

theorem contains_iff : s.contains symbol = true ↔ symbol ∈ s.functions.map (·.symbol) := by
  simp [contains]

theorem find?_eq_none : s.find? symbol = none ↔ symbol ∉ s.functions.map (·.symbol) := by
  simp [find?]

theorem find?_insert : (s.insert f).2.find? symbol =
    (s.find? symbol).or (if f.symbol = symbol then some f else none) := by
  unfold insert
  by_cases hold : s.contains f.symbol = true
  · rw [if_pos hold]
    by_cases hsymbol : f.symbol = symbol
    · cases hfind : s.find? symbol with
      | some g => rfl
      | none =>
        rw [hsymbol] at hold
        exact absurd (contains_iff.1 hold) (find?_eq_none.1 hfind)
    · rw [if_neg hsymbol, Option.or_none]
  · rw [if_neg hold]
    unfold find?
    rw [List.find?_append]
    congr 1
    by_cases hsymbol : f.symbol = symbol
    · simp [hsymbol]
    · simp [hsymbol]

theorem nodup_insert (h : (s.functions.map (·.symbol)).Nodup) :
    ((s.insert f).2.functions.map (·.symbol)).Nodup := by
  unfold insert
  by_cases hold : s.contains f.symbol = true
  · rwa [if_pos hold]
  · rw [if_neg hold, List.map_append, List.map_singleton]
    apply h.append (List.nodup_singleton _)
    rw [List.disjoint_singleton, ← contains_iff]
    exact hold

theorem find?_foldl_insert (fs : List FunctionValue) (s : LinkSet) (symbol : String) :
    (fs.foldl (fun set f => (set.insert f).2) s).find? symbol =
      (s.find? symbol).or (fs.find? (·.symbol == symbol)) :=
  find?_foldl_add (fun _ _ _ => find?_insert) fs s symbol

theorem nodup_foldl_insert {fs : List FunctionValue} (h : (s.functions.map (·.symbol)).Nodup) :
    ((fs.foldl (fun set f => (set.insert f).2) s).functions.map (·.symbol)).Nodup := by
  induction fs generalizing s with
  | nil => exact h
  | cons f fs ih => exact ih (nodup_insert h)

/-- Functions whose symbols are there already change nothing. -/
theorem foldl_insert_eq {fs : List FunctionValue}
    (h : ∀ f ∈ fs, f.symbol ∈ s.functions.map (·.symbol)) :
    fs.foldl (fun set f => (set.insert f).2) s = s := by
  induction fs with
  | nil => rfl
  | cons f fs ih =>
    obtain ⟨hf, hfs⟩ := List.forall_mem_cons.1 h
    have hinsert : s.insert f = (false, s) := if_pos (contains_iff.2 hf)
    rw [List.foldl_cons, hinsert]
    exact ih hfs

end LinkSet

/-- A declaration whose name is taken does not enter. -/
theorem DeclTable.foldl_enter_eq {t : DeclTable} {decls : List Decl}
    (h : ∀ d ∈ decls, d.symbol ∈ t.decls.map (·.symbol)) : decls.foldl enter t = t := by
  induction decls with
  | nil => rfl
  | cons d decls ih =>
    obtain ⟨hd, hdecls⟩ := List.forall_mem_cons.1 h
    have henter : t.enter d = t := by
      unfold enter insert
      cases hfind : t.find? d.symbol with
      | some existing => rfl
      | none => exact absurd hd (find?_eq_none.1 hfind)
    rw [List.foldl_cons, henter]
    exact ih hdecls

/-! ## Claims in the order of their tickets -/

namespace ExportTable

variable {t : ExportTable} {ticket : ClaimTicket} {d : Decl}

theorem find?_eq_none {symbol : String} : t.find? symbol = none ↔ symbol ∉ t.inUse := by
  simp [find?, entry?, inUse]

/-- A late claim takes no symbol away. -/
theorem nodup_claim (h : t.Before ticket.number) (hnodup : t.inUse.Nodup) :
    (t.claim ticket d).2.inUse.Nodup := by
  rw [claim_eq h]
  dsimp only
  split
  · exact hnodup
  · rename_i hnone
    rw [Bool.not_eq_true, Option.isSome_eq_false_iff, Option.isNone_iff_eq_none,
      find?_eq_none] at hnone
    unfold inUse
    rw [List.map_append, List.map_singleton]
    exact hnodup.append (List.nodup_singleton _) (List.disjoint_singleton.2 hnone)

/-- Claims reserve no tickets. -/
theorem reserved_foldl (tasks : List BuildTask) (t : ExportTable) :
    (tasks.foldl BuildTask.exportsAfter t).reserved = t.reserved := by
  induction tasks generalizing t with
  | nil => rfl
  | cons task tasks ih =>
    refine (ih _).trans ?_
    cases task with
    | claim ticket d =>
      show (t.claim ticket d).2.reserved = t.reserved
      unfold claim
      split
      · rfl
      · split
        · rfl
        · rfl
    | _ => rfl

variable {names : Interner} {file : SourceFile} {next reserved : Nat} {changes : List Change}

/-- What the claims of a revision, in their turn, make of symbols in use that were claimed before:
each symbol that is free goes to the first declaration that is exported under it. -/
structure ClaimedBy (t : ExportTable) (reserved : Nat) (decls : List Decl) (t' : ExportTable) :
    Prop where
  late : t'.Before (reserved + decls.length)
  nodup : t.inUse.Nodup → t'.inUse.Nodup
  holds : ∀ symbol, t'.find? symbol = (t.find? symbol).or (decls.find? (·.symbol == symbol))
  same : (∀ d ∈ decls, d.symbol ∈ t.inUse) → t'.entries = t.entries

theorem ClaimedBy.congr {t₁ t₂ t' : ExportTable} {decls : List Decl}
    (h : ClaimedBy t₁ reserved decls t') (hentries : t₁.entries = t₂.entries) :
    ClaimedBy t₂ reserved decls t' := by
  obtain ⟨hlate, hnodup, hholds, hsame⟩ := h
  unfold inUse at hnodup hsame
  unfold find? entry? at hholds
  rw [hentries] at hnodup hholds hsame
  exact ⟨hlate, hnodup, hholds, hsame⟩

theorem claimedBy_tasks (h : t.Before reserved) :
    ClaimedBy t reserved (exported (Change.made names file next changes))
      ((Change.tasks names file next reserved changes).foldl BuildTask.exportsAfter t) := by
  induction changes generalizing t next reserved with
  | nil => exact ⟨h, fun hnodup => hnodup, fun _ => (Option.or_none).symm, fun _ => rfl⟩
  | cons c changes ih =>
    cases c with
    | runComptime block => exact ih h
    | reportNameless f => exact ih h
    | add symbol f =>
      let d : Decl := { id := next, name := names.nameOf symbol, symbol, item := f, file }
      rw [Change.tasks, Change.made, exported_cons]
      show ClaimedBy t reserved ((if d.isExport then [d] else []) ++ exported _)
        ((d.tasks reserved ++ Change.tasks names file (next + 1) (d.reserves reserved)
          changes).foldl BuildTask.exportsAfter t)
      rw [Decl.tasks, Decl.reserves]
      by_cases hexport : d.isExport = true
      · rw [if_pos hexport, if_pos hexport, if_pos hexport]
        have hbefore : t.Before (ClaimTicket.mk reserved).number := h
        have hrest : ClaimedBy (t.claim ⟨reserved⟩ d).2 (reserved + 1)
            (exported (Change.made names file (next + 1) changes)) _ := ih (before_claim hbefore)
        obtain ⟨hlate, hnodup, hholds, hsame⟩ := hrest
        refine ⟨?_, fun hdistinct => ?_, fun symbol' => ?_, fun hused => ?_⟩
        · rw [List.length_append, List.length_singleton, ← Nat.add_assoc]
          exact hlate
        · exact hnodup (nodup_claim hbefore hdistinct)
        · rw [List.find?_append]
          refine (hholds symbol').trans ?_
          rw [find?_claim hbefore, Option.or_assoc]
          congr 2
          by_cases hsymbol : d.symbol = symbol'
          · simp [hsymbol]
          · simp [hsymbol]
        · obtain ⟨hfirst, hrest⟩ := List.forall_mem_cons.1 hused
          have hclaim : (t.claim ⟨reserved⟩ d).2 = t := by
            rw [claim_eq hbefore]
            dsimp only
            rw [if_pos]
            rw [← Option.ne_none_iff_isSome, Ne, find?_eq_none, not_not]
            exact hfirst
          rw [hclaim] at hsame
          show (List.foldl _ (t.claim ⟨reserved⟩ d).2 _).entries = t.entries
          rw [hclaim]
          exact hsame hrest
      · rw [if_neg hexport, if_neg hexport, if_neg hexport]
        exact ih h

end ExportTable

/-! ## What follows from findings -/

/-- A finding links the value that is kept of it, and generates the code it asks for. -/
theorem Finding.KeptBy.delivers {finding : Finding} {types : TypeStore} {s : Session} {d : Decl}
    (h : finding.KeptBy types d (s.resolution d.id)) :
    (finding.tasks (s.resolution d.id)).filterMap (·.links?) = (s.value? d).toList ∧
      (finding.tasks (s.resolution d.id)).filterMap (·.generates?) = finding.calls ∧
      ((s.value? d).isSome ↔ finding.calls ≠ []) ∧
      ∀ f, s.value? d = some f → ∃ type, f = d.value type := by
  unfold Session.value?
  cases finding with
  | unreadable problems =>
    rw [show s.resolution d.id = .resolved .failed from h]
    simp [tasks, calls]
  | rejected problem =>
    rw [show s.resolution d.id = .resolved .failed from h]
    simp [tasks, calls]
  | crashed message =>
    rw [show s.resolution d.id = .empty from h]
    simp [tasks, calls]
  | prototype type =>
    obtain ⟨id, hmemo, -⟩ := h
    rw [hmemo]
    simp [tasks, calls]
  | function type call =>
    obtain ⟨id, hmemo, -⟩ := h
    rw [hmemo]
    simp [tasks, calls, BuildTask.links?, BuildTask.generates?]

namespace Workshop

variable {w : Workshop} {tasks : List BuildTask} {root : String} {names : Interner}
  {file : SourceFile} {changes : List Change} {problems : List Diagnostic}

/-- Tasks change no resolution but those of the declarations they resolve. -/
theorem endOf_resolution {id : DeclId} (h : id ∉ (BuildTask.resolved tasks).map (·.id)) :
    (endOf runTask tasks w).session.resolution id = w.session.resolution id := by
  induction tasks generalizing w with
  | nil => rfl
  | cons task tasks ih =>
    rw [BuildTask.resolved_cons, List.map_append, List.mem_append, not_or] at h
    refine (ih h.2).trans (runTask_resolution fun d htask hid => h.1 ?_)
    rw [htask, ← hid]
    exact List.mem_singleton_self _

theorem runTask_spawned_of_ready {task : BuildTask} (h : w.session.Ready (task :: tasks)) :
    (runTask task w).spawned = task.resolves?.toList.flatMap fun d =>
      (d.finding w.session.analyzer).tasks ((runTask task w).state.session.resolution d.id) := by
  have hdoes := does_of_ready h
  cases task with
  | resolve d => exact (hdoes.spawned d rfl).trans (List.append_nil _).symm
  | _ => exact hdoes.spawnedElse fun _ heq => by cases heq

/-- What tasks spawn in a session that is ready for them follows from the findings of the
declarations they resolve. -/
theorem spawnedBy_of_ready (h : w.session.Ready tasks) :
    spawnedBy runTask tasks w = (BuildTask.resolved tasks).flatMap fun d =>
      (d.finding w.session.analyzer).tasks
        ((endOf runTask tasks w).session.resolution d.id) := by
  induction tasks generalizing w with
  | nil => rfl
  | cons task tasks ih =>
    have hrest := ih (does_of_ready h).ready
    rw [runTask_analyzer] at hrest
    have hcons : spawnedBy runTask (task :: tasks) w =
        (runTask task w).spawned ++ spawnedBy runTask tasks (runTask task w).state := rfl
    rw [hcons, hrest, BuildTask.resolved_cons, List.flatMap_append, runTask_spawned_of_ready h]
    congr 1
    -- no later task resolves what this one does
    cases task with
    | resolve d =>
      have hdistinct := h.distinct
      rw [List.filterMap_cons, BuildTask.resolves?, List.map_cons, List.nodup_cons] at hdistinct
      have hlater := endOf_resolution (w := (runTask (.resolve d) w).state) hdistinct.1
      simp only [BuildTask.resolves?, Option.toList_some, List.flatMap_singleton]
      rw [← hlater]
      rfl
    | _ => rfl

/-- What the declarations that a cycle resolves are resolved to when they have all been, they are
resolved to when the cycle has delivered. -/
theorem runGroup_resolution (w : Workshop) (root : String) (id : DeclId) :
    (runGroup groupName runTask BuildTask.depth [.rebuild root] w).state.session.resolution id =
      (w.resolvedState root).session.resolution id := by
  rw [runGroup_eq]
  apply endOf_resolution
  have hnone : BuildTask.resolved (w.deliveries root) = [] := by
    rw [List.eq_nil_iff_forall_not_mem]
    intro d hd
    have hdelivery := isDelivery_of_mem_deliveries (BuildTask.mem_resolved.1 hd)
    cases hdelivery
  rw [hnone]
  exact List.not_mem_nil

theorem deliveries_eq (hs : w.session.Settled)
    (h : Rebuilt w.session names file changes problems (w.rebuild root)) :
    w.deliveries root =
      (exported (Change.made names file w.session.nextDecl changes)).flatMap fun d =>
        (d.finding w.session.analyzer).tasks
          ((runGroup groupName runTask BuildTask.depth [.rebuild root]
            w).state.session.resolution d.id) := by
  have hanalyzer : (w.rebuild root).state.session.analyzer = w.session.analyzer :=
    runTask_analyzer (.rebuild root) w
  have hspawned := spawnedBy_of_ready (h.ready hs)
  rw [hanalyzer, h.spawned, Change.resolved_tasks] at hspawned
  simp only [runGroup_resolution]
  rw [deliveries, h.spawned, hspawned, resolvedState, h.spawned]

/-- The functions that tasks link, in the order in which they do. -/
def linkedIn (history : List (TaskRun Workshop BuildTask)) : List FunctionValue :=
  history.filterMap (·.task.links?)

theorem linkedIn_append (before after : List (TaskRun Workshop BuildTask)) :
    linkedIn (before ++ after) = linkedIn before ++ linkedIn after := List.filterMap_append

theorem linkedIn_lineOf (tasks : List BuildTask) (w : Workshop) :
    linkedIn (lineOf runTask tasks w) = tasks.filterMap (·.links?) := by
  have htasks : (lineOf runTask tasks w).map (·.task) = tasks := map_task_lineOf tasks w
  have hmap := congrArg (List.filterMap BuildTask.links?) htasks
  rw [List.filterMap_map] at hmap
  exact hmap

theorem rebuild_delivers_nothing (w : Workshop) (path : String) :
    (w.rebuild path).spawned.filterMap (·.links?) = [] ∧
      (w.rebuild path).spawned.filterMap (·.generates?) = [] := by
  have hnone : ∀ t ∈ (w.rebuild path).spawned, t.links? = none ∧ t.generates? = none := by
    intro t ht
    have hdelivery := rebuild_delivers w path t ht
    cases t with
    | generate call => cases hdelivery
    | link f => cases hdelivery
    | _ => exact ⟨rfl, rfl⟩
  constructor
  · exact List.filterMap_eq_nil_iff.2 fun t ht => (hnone t ht).1
  · exact List.filterMap_eq_nil_iff.2 fun t ht => (hnone t ht).2

/-- A rebuild spawns no delivery, so a cycle links what its resolutions deliver. -/
theorem linkedIn_cycleHistory (w : Workshop) (root : String) :
    linkedIn (w.cycleHistory root) = (w.deliveries root).filterMap (·.links?) := by
  have hcons (rest : List (TaskRun Workshop BuildTask)) :
      linkedIn (⟨w, .rebuild root⟩ :: rest) = linkedIn rest := rfl
  rw [cycleHistory_eq, hcons, linkedIn_append, followUps, linkedIn_lineOf, linkedIn_lineOf,
    (rebuild_delivers_nothing w root).1, List.nil_append]

/-- A function that a cycle links is the value of a declaration that it has built. -/
theorem exists_builds_of_mem_linkedIn {f : FunctionValue}
    (hf : f ∈ linkedIn (w.cycleHistory root)) :
    ∃ x ∈ w.cycleHistory root, .link f ∈ (x.step runTask).spawned ∧ ∃ d, x.Builds d := by
  rw [linkedIn_cycleHistory, List.mem_filterMap] at hf
  obtain ⟨t, ht, hlinks⟩ := hf
  obtain ⟨x, hx, hspawned⟩ := List.mem_flatMap.1 ht
  refine ⟨x, ?_, ?_, builds_of_delivery x hspawned (isDelivery_of_mem_deliveries ht)⟩
  · rw [cycleHistory_eq]
    exact List.mem_cons_of_mem _ (List.mem_append_left _ hx)
  · cases t with
    | link g =>
      cases hlinks
      exact hspawned
    | _ => cases hlinks

/-- What a cycle delivers: it links the values of the exported declarations that its rebuild has
made, in their order, and requests the code of their functions. -/
structure Delivered (w : Workshop) (root : String) (made : List Decl)
    (run : GroupRun Workshop BuildTask) : Prop where
  linked : linkedIn (w.cycleHistory root) = made.filterMap run.state.session.value?
  linkSet : run.state.session.linkSet =
    (linkedIn (w.cycleHistory root)).foldl (fun set f => (set.insert f).2) w.session.linkSet
  calls : run.state.toolchain.calls =
    w.toolchain.calls ++ made.flatMap fun d => (d.finding w.session.analyzer).calls

theorem delivered_of_rebuilt (hs : w.session.Settled)
    (h : Rebuilt w.session names file changes problems (w.rebuild root)) :
    Delivered w root (exported (Change.made names file w.session.nextDecl changes))
      (runGroup groupName runTask BuildTask.depth [.rebuild root] w) := by
  have hkept := (compiled_of_rebuilt hs h).kept
  have hdeliveries := deliveries_eq hs h
  obtain ⟨hlinkSet, hcalls⟩ := endOf_delivers (w.deliveries root) (w.resolvedState root)
  obtain ⟨hquiet, hsilent⟩ := endOf_delivers (w.rebuild root).spawned (w.rebuild root).state
  obtain ⟨hlinks, hgenerates⟩ := rebuild_delivers_nothing w root
  rw [hlinks, rebuild_linkSet] at hquiet
  rw [hgenerates, rebuild_toolchain, List.append_nil] at hsilent
  have hends := runGroup_eq w root
  refine ⟨?_, ?_, ?_⟩
  · rw [linkedIn_cycleHistory, hdeliveries, List.filterMap_flatMap,
      List.filterMap_eq_flatMap_toList]
    exact List.flatMap_congr fun d hd => (hkept d hd).delivers.1
  · rw [hends, hlinkSet, linkedIn_cycleHistory, resolvedState, hquiet]
    rfl
  · rw [hends, hcalls]
    refine congrArg₂ _ hsilent ?_
    rw [hdeliveries, List.filterMap_flatMap]
    exact List.flatMap_congr fun d hd => (hkept d hd).delivers.2.1

/-! ## What a cycle does to the tables -/

theorem value?_congr {s s' : Session} {d : Decl} (h : s.resolution d.id = s'.resolution d.id) :
    s.value? d = s'.value? d := by
  unfold Session.value?
  rw [h]

/-- What is live keeps, after a cycle, what the tasks of the cycle have left. -/
theorem resolution_of_live {d : Decl} (hd : d ∈ (w.runCycle [root]).1.session.table.decls) :
    (w.runCycle [root]).1.session.resolution d.id =
      (runGroup groupName runTask BuildTask.depth [.rebuild root] w).state.session.resolution
        d.id := by
  have hend := runCycle_products w root
  have htable : (w.runCycle [root]).1.session.table =
      (runGroup groupName runTask BuildTask.depth [.rebuild root] w).state.session.table :=
    congrArg (fun s => s.table) hend
  have hresolutions : (w.runCycle [root]).1.session.resolutions =
      (runGroup groupName runTask BuildTask.depth [.rebuild root]
        w).state.session.forget.resolutions := congrArg (fun s => s.resolutions) hend
  rw [htable] at hd
  rw [Session.resolution_congr hresolutions]
  exact Session.resolution_forget_of_live hd

/-- What a cycle does to the tables of a session and to the requests for code, given the
declarations that it makes: these enter under names that are free, those that are exported claim
their symbols in turn, and their values, of which `u` knows, are linked. -/
structure Cycled (w : Workshop) (made : List Decl) (u : Session) (w' : Workshop) : Prop where
  table : w'.session.table = made.foldl DeclTable.enter w.session.table
  claimed : w.session.exports.Before w.session.exports.reserved →
    ExportTable.ClaimedBy w.session.exports w.session.exports.reserved (exported made)
      w'.session.exports
  reserved : w'.session.exports.reserved =
    w.session.exports.reserved + (exported made).length
  linkSet : w'.session.linkSet = ((exported made).filterMap u.value?).foldl
    (fun set f => (set.insert f).2) w.session.linkSet
  calls : w'.toolchain.calls = w.toolchain.calls ++
    (exported made).flatMap fun d => (d.finding w.session.analyzer).calls
  found : ∀ d ∈ exported made, (u.value? d).isSome ↔ (d.finding w.session.analyzer).calls ≠ []
  named : ∀ d ∈ exported made, ∀ f, u.value? d = some f → f.symbol = d.symbol
  ends : ∀ d ∈ w'.session.table.decls, w'.session.value? d = u.value? d
  kept : ∀ d ∈ w.session.table.decls, u.value? d = w.session.value? d

theorem cycled_of_rebuilt (hs : w.session.Settled)
    (h : Rebuilt w.session names file changes problems (w.rebuild root)) :
    Cycled w (Change.made names file w.session.nextDecl changes)
      (runGroup groupName runTask BuildTask.depth [.rebuild root] w).state.session
      (w.runCycle [root]).1 := by
  have hcompiled := compiled_of_rebuilt hs h
  obtain ⟨hlinked, hlinkSet, hcalls⟩ := delivered_of_rebuilt hs h
  have hend := runCycle_products w root
  have hexports : (w.runCycle [root]).1.session.exports = _ :=
    (congrArg (fun s => s.exports) hend).trans hcompiled.exports
  have hdelivers := fun d hd => (hcompiled.kept d hd).delivers
  refine ⟨?_, fun hlate => ?_, ?_, ?_, ?_, fun d hd => (hdelivers d hd).2.2.1, ?_, ?_, ?_⟩
  · exact (congrArg (fun s => s.table) hend).trans (hcompiled.table h)
  · have hlate' : (w.rebuild root).state.session.exports.Before w.session.exports.reserved := by
      unfold ExportTable.Before
      rw [h.entries]
      exact hlate
    rw [hexports, h.spawned]
    exact (ExportTable.claimedBy_tasks hlate').congr h.entries
  · rw [hexports, ExportTable.reserved_foldl, h.reserved]
  · rw [← hlinked, ← hlinkSet]
    exact congrArg (fun s => s.linkSet) hend
  · rw [runCycle_calls, hcalls]
  · intro d hd f hf
    obtain ⟨type, rfl⟩ := (hdelivers d hd).2.2.2 f hf
    rfl
  · exact fun d hd => value?_congr (resolution_of_live hd)
  · exact fun d hd => value?_congr (hcompiled.resolution_of_lt (hs.numbered d hd))

end Workshop

end IncrementalBuild
