import IncrementalBuild.Proofs.Session.CleanTable
import IncrementalBuild.Proofs.Session.Places

/-!
# What success of an incremental session is worth

A session sees one content of its files after the other and runs a cycle over each. If the last
cycle reports success, a new session that only sees the last content may still report
problems: a function that failed in an earlier cycle and was left alone since is not looked at
again. This is the only difference. The new session reports success exactly if every exported
declaration that is live in the old one was resolved and its code can be generated.
-/

set_option autoImplicit false

namespace IncrementalBuild

/-! ## One revision in two sessions -/

/-- The names of the functions among items. -/
def functionNames (items : List Item) : List String :=
  items.filterMap fun
    | .function f => f.name
    | _ => none

theorem functionNames_cons (f : FunctionItem) (items : List Item) :
    functionNames (.function f :: items) = f.name.toList ++ functionNames items := by
  unfold functionNames
  rw [List.filterMap_cons]
  dsimp only
  cases f.name <;> rfl

namespace ChangePlan.Unblocked

variable {settings : Settings} {file : SourceFile} {stale : List Decl} {items : List Item}
  {changes : List Change}

theorem named_iff (h : Unblocked settings file stale items changes) :
    (∀ f, .reportNameless f ∉ changes) ↔ ∀ f, .function f ∈ items → f.name ≠ none := by
  induction h with
  | done => simp
  | comptime _ ih => simpa using ih
  | test _ _ ih => simpa using ih
  | nameless hname _ _ =>
    refine iff_of_false (fun hnone => ?_) fun hall => ?_
    · exact hnone _ (List.mem_cons_self ..)
    · exact hall _ (List.mem_cons_self ..) hname
  | add hname _ _ ih => simpa [hname] using ih
  | keep hname _ _ _ ih => simpa [hname] using ih

theorem comptime_iff (h : Unblocked settings file stale items changes) (block : Span) :
    .runComptime block ∈ changes ↔ .comptime block ∈ items := by
  induction h with
  | done => simp
  | comptime _ ih => simp [ih]
  | test _ _ ih => simpa using ih
  | nameless _ _ ih => simpa using ih
  | add _ _ _ ih => simpa using ih
  | keep _ _ _ _ ih => simpa using ih

/-- What is live and what is added are together the functions of the revision. -/
theorem perm_names (h : Unblocked settings file stale items changes)
    (hnodup : (stale.map (·.symbol)).Nodup) :
    (stale.map (·.symbol) ++ Change.addedNames changes).Perm (functionNames items) := by
  induction h with
  | done => exact List.Perm.refl _
  | comptime _ ih => exact ih hnodup
  | test _ _ ih => exact ih hnodup
  | nameless hname _ ih =>
    rw [functionNames_cons, hname]
    exact ih hnodup
  | @add stale f symbol rest changes hname hlive _ ih =>
    have hnames : functionNames (.function f :: rest) = symbol :: functionNames rest := by
      rw [functionNames_cons, hname]
      rfl
    rw [hnames]
    exact List.perm_middle.trans ((ih hnodup).cons symbol)
  | @keep stale live f symbol rest changes hname hlive hbytes _ ih =>
    have hnames : functionNames (.function f :: rest) = symbol :: functionNames rest := by
      rw [functionNames_cons, hname]
      rfl
    have hsymbol : symbol ∈ stale.map (·.symbol) := by
      refine List.mem_map.2 ⟨live, List.mem_of_find?_eq_some hlive, ?_⟩
      simpa using List.find?_some hlive
    have hrest : (stale.filter (·.symbol != symbol)).map (·.symbol) =
        (stale.map (·.symbol)).erase symbol := by
      rw [hnodup.erase_eq_filter, List.filter_map]
      rfl
    have hsub : ((stale.filter (·.symbol != symbol)).map (·.symbol)).Nodup :=
      hnodup.sublist (List.filter_sublist.map _)
    rw [hnames]
    refine List.Perm.trans ?_ ((ih hsub).cons symbol)
    rw [hrest, ← List.cons_append]
    exact (List.perm_cons_erase hsymbol).append_right _

end ChangePlan.Unblocked

/-! ## Declarations that are built -/

/-- A declaration is built: it was resolved, and the code of its body, if it has one, can be
generated. -/
def Session.Built (s : Session) (generator : CodeGenerator) (d : Decl) : Prop :=
  ∃ type value, s.resolution d.id = .resolved (.resolved type value) ∧
    ∀ body, d.item.body = some body → ∃ params result how,
      s.types.denote? type = some (.function params result how) ∧
        generator (Workshop.codegenCall s.types (d.value type) result body) = .done

theorem Decl.body_of_prototype {d : Decl} {analyzer : Analyzer} {type : Ty}
    (h : d.finding analyzer = .prototype type) : d.item.body = none := by
  unfold finding at h
  split at h
  · cases h
  · dsimp only at h
    split at h
    · assumption
    · split at h <;> cases h

theorem Decl.call_of_function {d : Decl} {analyzer : Analyzer} {type : Ty} {call : CodegenCall}
    (h : d.finding analyzer = .function type call) :
    ∃ params result how body, type = .function params result how ∧ d.item.body = some body ∧
      call = d.call type result body := by
  unfold finding at h
  split at h
  · cases h
  · rename_i params result hmeaning
    dsimp only at h
    split at h
    · cases h
    · rename_i body hbody
      split at h
      · cases h
      · cases h
      · cases h
        exact ⟨params, result, _, body, rfl, hbody, rfl⟩

theorem codegenCall_eq {types : TypeStore} {d : Decl} {id : TypeId} {type : Ty}
    (h : types.denote? id = some type) (result : Ty) (body : Span) :
    Workshop.codegenCall types (d.value id) result body = d.call type result body := by
  rw [Workshop.codegenCall, Decl.call, FunctionValue.text, Decl.value, Workshop.text_eq h]

/-- Between two cycles an exported declaration is built exactly if what it was found to be is
good. -/
theorem Session.Settled.built_iff {s : Session} (hs : s.Settled) (generator : CodeGenerator)
    {d : Decl} (hd : d ∈ s.table.decls) (hexport : d.isExport = true) :
    s.Built generator d ↔ (d.finding s.analyzer).Good generator := by
  have hkept := hs.kept d hd hexport
  unfold Built
  cases hfinding : d.finding s.analyzer with
  | unreadable problems =>
    rw [hfinding] at hkept
    rw [show s.resolution d.id = .resolved .failed from hkept]
    simp [Finding.Good]
  | rejected problem =>
    rw [hfinding] at hkept
    rw [show s.resolution d.id = .resolved .failed from hkept]
    simp [Finding.Good]
  | crashed message =>
    rw [hfinding] at hkept
    rw [show s.resolution d.id = .empty from hkept]
    simp [Finding.Good]
  | prototype type =>
    rw [hfinding] at hkept
    obtain ⟨id, hmemo, hid⟩ := hkept
    rw [hmemo, Decl.body_of_prototype hfinding]
    simp [Finding.Good]
  | function type call =>
    rw [hfinding] at hkept
    obtain ⟨id, hmemo, hid⟩ := hkept
    obtain ⟨params, result, how, body, rfl, hbody, rfl⟩ := Decl.call_of_function hfinding
    rw [hmemo, hbody]
    constructor
    · rintro ⟨type, value, heq, hall⟩
      cases heq
      obtain ⟨params', result', how', hdenote, hdone⟩ := hall body rfl
      rw [hid] at hdenote
      cases hdenote
      rwa [codegenCall_eq hid] at hdone
    · intro hgood
      refine ⟨id, _, rfl, fun body' heq => ?_⟩
      cases heq
      refine ⟨params, result, how, hid, ?_⟩
      rw [codegenCall_eq hid]
      exact hgood

namespace DeclTable

variable {t t' : DeclTable}

/-- What is live in one of two tables that agree is live in the other, in its own place. -/
theorem Agrees.exists_mem (h : t.Agrees t') (hsound : t.Sound) (hsound' : t'.Sound) {d : Decl}
    (hd : d ∈ t.decls) : ∃ d' ∈ t'.decls, d.symbol = d'.symbol ∧
      FunctionItem.SameIn d.file.text d.item d'.file.text d'.item := by
  have hrel := h d.symbol
  rw [hsound.find?_eq_some.2 ⟨hd, rfl⟩] at hrel
  cases hfind : t'.find? d.symbol with
  | none =>
    rw [hfind] at hrel
    cases hrel
  | some d' =>
    rw [hfind] at hrel
    cases hrel with
    | some hboth =>
      obtain ⟨hd', hsymbol⟩ := hsound'.find?_eq_some.1 hfind
      exact ⟨d', hd', hsymbol.symm, hboth.2⟩

theorem Agrees.symm (h : t.Agrees t') : t'.Agrees t := by
  intro symbol
  have hrel := h symbol
  cases hfind : t.find? symbol with
  | none =>
    rw [hfind] at hrel
    cases hfind' : t'.find? symbol with
    | none => exact .none
    | some d' =>
      rw [hfind'] at hrel
      cases hrel
  | some d =>
    rw [hfind] at hrel
    cases hfind' : t'.find? symbol with
    | none =>
      rw [hfind'] at hrel
      cases hrel
    | some d' =>
      rw [hfind'] at hrel
      cases hrel with
      | some hboth => exact .some ⟨hboth.1.symm, hboth.2.symm⟩

end DeclTable

namespace Workshop

variable {v u w : Workshop} {root path text : String} {changes : List Change}

/-- A revision that a session takes, a session without declarations takes. -/
theorem Takes.fresh (h : w.Takes path text changes)
    (hsettings : u.session.settings = w.session.settings) (hfiles : u.files = w.files)
    (htable : u.session.table = {}) : ∃ changes', u.Takes path text changes' := by
  obtain ⟨changes', hunblocked⟩ := h.unblocked.fresh
  have hnodup := h.distinct.sublist (List.sublist_append_left _ _)
  have hnames := h.unblocked.perm_names hnodup
  have hfresh := hunblocked.perm_names List.nodup_nil
  refine ⟨changes', ?_, h.valid, ?_, ?_, ?_⟩
  · rw [hsettings, hfiles]
    exact h.read
  · rw [hsettings, htable]
    exact hunblocked
  · rw [hunblocked.named_iff, ← h.unblocked.named_iff]
    exact h.named
  · rw [htable]
    exact (hfresh.trans hnames.symm).nodup_iff.2 h.distinct

theorem Takes.shows (h : w.Takes path text changes) (hsound : w.session.table.Sound)
    (hlive : w.session.isCancelled = false) :
    (w.runCycle [path]).1.session.table.Shows text := by
  have hplan : (planFor w ((parse text).file path text)).blocker = none :=
    congrArg ChangePlan.blocker h.unblocked.ofItems_eq
  unfold runCycle
  dsimp only
  rw [finish_table, compile_table]
  exact rebuild_shows hsound hlive h.read h.valid hplan

theorem Takes.decls (h : w.Takes path text changes) (hlive : w.session.isCancelled = false) :
    (w.runCycle [path]).1.session.table.decls = w.session.table.decls ++
      Change.made (w.namesAfter text) ((parse text).file path text) w.session.nextDecl changes := by
  unfold runCycle
  dsimp only
  rw [finish_table, compile_table, (h.rebuilt hlive).2.table]
  apply DeclTable.decls_foldl_enter
  rw [Change.map_symbol_made]
  exact h.distinct

/-- No cycle changes the analyzer. -/
theorem runCycle_analyzer (w : Workshop) (paths : List String) :
    (w.runCycle paths).1.session.analyzer = w.session.analyzer := by
  obtain ⟨s, hs, hfinish⟩ := finish_session (w.compile paths).1 (w.compile paths).2
  have hlinked : s.analyzer = (w.compile paths).1.session.analyzer :=
    congrArg (fun s => s.analyzer) hs
  unfold runCycle
  dsimp only
  rw [hfinish]
  exact hlinked.trans (compile_inStepWith w paths).analyzer

/-- A session that reports success, and one without declarations that sees the same files: the
other reports success exactly if all exported declarations of the first are built. -/
theorem runCycle_ok_iff_built (hv : v.session.Settled) (hu : u.session.Settled)
    (hsound : v.session.table.Sound) (hlive : v.session.isCancelled = false)
    (hlive' : u.session.isCancelled = false) (hempty : u.session.table = {})
    (hsettings : u.session.settings = v.session.settings)
    (hanalyzer : u.session.analyzer = v.session.analyzer) (hfiles : u.files = v.files)
    (hspans : v.session.analyzer.IgnoresSpans) (hplace : u.toolchain.generator.IgnoresPlace)
    (hlink : ∀ cycle, ((u.compile [root]).1.link cycle).1 = .ok ())
    (hok : (v.runCycle [root]).2.outcome = .ok) :
    (u.runCycle [root]).2.outcome = .ok ↔
      ∀ d ∈ (v.runCycle [root]).1.session.table.decls, d.isExport = true →
        (v.runCycle [root]).1.session.Built u.toolchain.generator d := by
  obtain ⟨text, changes, htakes, haccepts⟩ := takes_of_ok hv hok
  obtain ⟨changes', htakes'⟩ := htakes.fresh hsettings hfiles hempty
  have hbuilt {d : Decl} (hd : d ∈ (v.runCycle [root]).1.session.table.decls)
      (hexport : d.isExport = true) :
      (v.runCycle [root]).1.session.Built u.toolchain.generator d ↔
        (d.finding v.session.analyzer).Good u.toolchain.generator := by
    rw [(settled_runCycle hv root).built_iff _ hd hexport, runCycle_analyzer]
  have husound : u.session.table.Sound := by
    rw [hempty]
    exact DeclTable.sound_empty
  have hsound₁ := sound_runCycle hsound [root]
  have hsound₂ := sound_runCycle husound [root]
  have hagrees := (htakes.shows hsound hlive).agrees (htakes'.shows husound hlive') hsound₁ hsound₂
  have hgood {d d' : Decl} (hd : d ∈ (v.runCycle [root]).1.session.table.decls)
      (hd' : d' ∈ (u.runCycle [root]).1.session.table.decls) (hsymbol : d.symbol = d'.symbol)
      (hsame : FunctionItem.SameIn d.file.text d.item d'.file.text d'.item) :=
    Decl.good_iff_of_sameIn hspans hplace hsymbol (hsound₁.parsed d hd) (hsound₂.parsed d' hd')
      hsame
  constructor
  · intro hok' d hd hexport
    obtain ⟨text'', changes'', htakes'', haccepts''⟩ := takes_of_ok hu hok'
    obtain ⟨d', hd', hsymbol, hsame⟩ := hagrees.exists_mem hsound₁ hsound₂ hd
    have hmade := hd'
    rw [htakes''.decls hlive', hempty] at hmade
    have hexport' : d'.isExport = true := (Decl.item_eq_of_sameIn hsame).2.1 ▸ hexport
    have hfound := haccepts''.good d' (mem_exported.2 ⟨hmade, hexport'⟩)
    rw [hanalyzer] at hfound
    exact (hbuilt hd hexport).2 ((hgood hd hd' hsymbol hsame).2 hfound)
  · intro hall
    refine ok_of_takes hu hlive' htakes' ⟨fun block hblock => ?_, fun d' hd' => ?_⟩ hlink
    · rw [hanalyzer]
      apply haccepts.comptime
      rw [htakes.unblocked.comptime_iff, ← htakes'.unblocked.comptime_iff]
      exact hblock
    · obtain ⟨hmade, hexport'⟩ := mem_exported.1 hd'
      have hlive'' : d' ∈ (u.runCycle [root]).1.session.table.decls := by
        rw [htakes'.decls hlive', hempty]
        exact hmade
      obtain ⟨d, hd, hsymbol, hsame⟩ := hagrees.symm.exists_mem hsound₂ hsound₁ hlive''
      have hexport : d.isExport = true := (Decl.item_eq_of_sameIn hsame).2.1 ▸ hexport'
      rw [hanalyzer]
      exact (hgood hd hlive'' hsymbol.symm hsame.symm).1 ((hbuilt hd hexport).1 (hall d hd hexport))

end Workshop

end IncrementalBuild
