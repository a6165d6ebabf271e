import IncrementalBuild.Proofs.Session.Deliveries
import IncrementalBuild.Proofs.Session.Once

/-!
# Who holds a symbol

Three tables of a session are filled by tasks that know nothing of each other: the live
declarations, the symbols in use and the functions to link. Each keeps what comes first under a
symbol, and none ever shrinks. What is first in the history of a session is first in its tables:
so an exported declaration that is live holds its own symbol, and if it has a value it is linked
with that value. What else is exported or linked came from a declaration that was refused because
its name was taken, by one that is not exported or has no value.
-/

set_option autoImplicit false

namespace IncrementalBuild

/-! ## One declaration -/

namespace TaskRun.Builds

variable {x : TaskRun Workshop BuildTask} {d : Decl} {f : FunctionValue}

/-- What a task that builds a declaration links is the value it has found. -/
theorem eq_value (h : x.Builds d) (hf : .link f ∈ (x.step Workshop.runTask).spawned) :
    f.symbol = d.symbol ∧ ∃ type, (x.step Workshop.runTask).state.session.resolution d.id =
      .resolved (.resolved type (some f)) := by
  obtain ⟨body, type, call, -, hresolution, hspawned⟩ := h.built
  rw [hspawned] at hf
  simp only [List.mem_cons, List.not_mem_nil, or_false, reduceCtorEq, false_or,
    BuildTask.link.injEq] at hf
  rw [hf]
  exact ⟨rfl, type, hresolution⟩

theorem mem_resolvedIn {history : List (TaskRun Workshop BuildTask)} (h : x.Builds d)
    (hx : x ∈ history) : d ∈ Workshop.resolvedIn history := by
  apply List.mem_filterMap.2
  refine ⟨x, hx, ?_⟩
  rw [h.task]
  rfl

end TaskRun.Builds

/-- What a memo keeps of a declaration tells whether it has a body. -/
theorem Finding.value_of_keptBy {d : Decl} {analyzer : Analyzer} {types : TypeStore}
    {type : TypeId} {value : Option FunctionValue}
    (h : (d.finding analyzer).KeptBy types d (.resolved (.resolved type value))) :
    value = d.item.body.map fun _ => d.value type := by
  cases hfinding : d.finding analyzer with
  | unreadable problems =>
    rw [hfinding] at h
    cases h
  | rejected problem =>
    rw [hfinding] at h
    cases h
  | crashed message =>
    rw [hfinding] at h
    cases h
  | prototype t =>
    rw [hfinding] at h
    obtain ⟨id, hmemo, -⟩ := h
    cases hmemo
    rw [Decl.body_of_prototype hfinding]
    rfl
  | function t call =>
    rw [hfinding] at h
    obtain ⟨id, hmemo, -⟩ := h
    cases hmemo
    obtain ⟨_, _, _, body, _, hbody, _⟩ := Decl.call_of_function hfinding
    rw [hbody]
    rfl

namespace Workshop

/-! ## What stands in the tables -/

/-- What stands in the tables of a session is what came first in its history. -/
structure Standing (history : List (TaskRun Workshop BuildTask)) (s : Session) : Prop where
  isExport : ∀ d ∈ resolvedIn history, d.isExport = true
  listed : ∀ d ∈ resolvedIn history, d.symbol ∈ s.table.decls.map (·.symbol)
  first : ∀ d ∈ s.table.decls, d.isExport = true →
    (resolvedIn history).find? (·.symbol == d.symbol) = some d
  late : s.exports.Before s.exports.reserved
  distinct : s.exports.inUse.Nodup
  holds : ∀ symbol, s.exports.find? symbol =
    (resolvedIn history).find? (·.symbol == symbol)
  unique : (s.linkSet.functions.map (·.symbol)).Nodup
  links : ∀ symbol, s.linkSet.find? symbol =
    (linkedIn history).find? (·.symbol == symbol)
  built : ∀ f ∈ linkedIn history, ∃ x ∈ history,
    .link f ∈ (x.step runTask).spawned ∧ ∃ d, x.Builds d
  linked : ∀ d ∈ s.table.decls, d.isExport = true → ∀ f, s.value? d = some f →
    (linkedIn history).find? (·.symbol == d.symbol) = some f

/-- A declaration was exported and refused: it was to be resolved, and is not live. -/
structure Refused (history : List (TaskRun Workshop BuildTask)) (s : Session) (d : Decl) :
    Prop where
  asked : d ∈ resolvedIn history
  isExport : d.isExport = true
  gone : d ∉ s.table.decls

/-- Each exported declaration that is live holds its symbol. Any other symbol in use is held by a
declaration that was refused, while the live one of its name is not exported. -/
structure ExportsStand (history : List (TaskRun Workshop BuildTask)) (s : Session) : Prop where
  live : ∀ d ∈ s.table.decls, d.isExport = true → s.exports.find? d.symbol = some d
  others : ∀ e ∈ s.exports.entries, (e.decl ∈ s.table.decls ∧ e.decl.isExport = true) ∨
    (Refused history s e.decl ∧
      ∃ d ∈ s.table.decls, d.symbol = e.decl.symbol ∧ d.isExport = false)
  once : s.exports.inUse.Nodup

/-- Each exported declaration that is live and was resolved has a value if it has a body, and is
linked with that value. Any other function to link is the value of a declaration that was refused,
while the live one of its name is not exported or has no value. -/
structure LinksStand (history : List (TaskRun Workshop BuildTask)) (s : Session) : Prop where
  live : ∀ d ∈ s.table.decls, d.isExport = true → ∀ type value,
    s.resolution d.id = .resolved (.resolved type value) →
      value = (d.item.body.map fun _ => d.value type) ∧
        ∀ f ∈ value, s.linkSet.find? d.symbol = some f
  others : ∀ f ∈ s.linkSet.functions,
    (∃ d ∈ s.table.decls, d.isExport = true ∧ s.value? d = some f) ∨
      ∃ d, Refused history s d ∧
        (∃ x ∈ history, x.Builds d ∧ .link f ∈ (x.step runTask).spawned) ∧
        ∃ live ∈ s.table.decls, live.symbol = d.symbol ∧
          (live.isExport = false ∨ s.value? live = none)
  once : (s.linkSet.functions.map (·.symbol)).Nodup

variable {w : Workshop} {root : String} {history : List (TaskRun Workshop BuildTask)}

/-! ## One cycle -/

/-- Nothing between two cycles moves what stands. -/
theorem Standing.congr {s s' : Session} (h : Standing history s)
    (hsame : s.products = s'.products) : Standing history s' := by
  have htable : s.table = s'.table := congrArg (fun s => s.table) hsame
  have hexports : s.exports = s'.exports := congrArg (fun s => s.exports) hsame
  have hlinkSet : s.linkSet = s'.linkSet := congrArg (fun s => s.linkSet) hsame
  have hvalue (d : Decl) : s.value? d = s'.value? d :=
    value?_congr (Session.resolution_congr (congrArg (fun s => s.resolutions) hsame) d.id)
  obtain ⟨hexported, hlisted, hfirst, hlate, hdistinct, hholds, hunique, hlinks, hbuilt,
    hlinked⟩ := h
  rw [htable] at hlisted hfirst hlinked
  rw [hexports] at hlate hdistinct hholds
  rw [hlinkSet] at hunique hlinks
  simp only [hvalue] at hlinked
  exact ⟨hexported, hlisted, hfirst, hlate, hdistinct, hholds, hunique, hlinks, hbuilt, hlinked⟩

/-- What is linked has the symbol of a live declaration. -/
theorem Standing.linked_listed {s : Session} (h : Standing history s) {f : FunctionValue}
    (hf : f ∈ linkedIn history) : f.symbol ∈ s.table.decls.map (·.symbol) := by
  obtain ⟨x, hx, hspawned, d, hbuilds⟩ := h.built f hf
  rw [(hbuilds.eq_value hspawned).1]
  exact h.listed d (hbuilds.mem_resolvedIn hx)

/-- Nothing was made or linked under a name that is free. -/
theorem Standing.find?_eq_none {s : Session} (h : Standing history s) {symbol : String}
    (hfree : symbol ∉ s.table.decls.map (·.symbol)) :
    (resolvedIn history).find? (·.symbol == symbol) = none ∧
      (linkedIn history).find? (·.symbol == symbol) = none := by
  constructor
  · rw [List.find?_eq_none]
    intro d hd hname
    rw [beq_iff_eq] at hname
    exact hfree (hname ▸ h.listed d hd)
  · rw [List.find?_eq_none]
    intro f hf hname
    rw [beq_iff_eq] at hname
    exact hfree (hname ▸ h.linked_listed hf)

/-- The first of the declarations that has a name is also the first that has a value under it, if
it has one. -/
theorem find?_filterMap_value {decls : List Decl} {value? : Decl → Option FunctionValue} {d : Decl}
    {f : FunctionValue} (hfirst : decls.find? (·.symbol == d.symbol) = some d)
    (hvalue : value? d = some f)
    (hnamed : ∀ e ∈ decls, ∀ g, value? e = some g → g.symbol = e.symbol) :
    (decls.filterMap value?).find? (·.symbol == d.symbol) = some f := by
  induction decls with
  | nil => cases hfirst
  | cons e decls ih =>
    obtain ⟨he, hdecls⟩ := List.forall_mem_cons.1 hnamed
    rw [List.find?_cons] at hfirst
    by_cases hname : e.symbol = d.symbol
    · rw [beq_iff_eq.2 hname] at hfirst
      obtain rfl := Option.some.inj hfirst
      have hf : (f.symbol == e.symbol) = true := beq_iff_eq.2 (he f hvalue)
      rw [List.filterMap_cons, hvalue]
      dsimp only
      rw [List.find?_cons, hf]
    · rw [beq_eq_false_iff_ne.2 hname] at hfirst
      have hrest := ih hfirst hdecls
      rw [List.filterMap_cons]
      cases hown : value? e with
      | none => exact hrest
      | some g =>
        have hg : (g.symbol == d.symbol) = false := by
          rw [beq_eq_false_iff_ne, he g hown]
          exact hname
        dsimp only
        rw [List.find?_cons, hg]
        exact hrest

/-- If the first declaration of a name is exported, it is the first exported one of that name. -/
theorem find?_exported {decls : List Decl} {d : Decl} (hexport : d.isExport = true)
    (hfirst : decls.find? (·.symbol == d.symbol) = some d) :
    (exported decls).find? (·.symbol == d.symbol) = some d := by
  obtain ⟨hsymbol, before, after, rfl, hbefore⟩ := List.find?_eq_some_iff_append.1 hfirst
  have hnone : (exported before).find? (·.symbol == d.symbol) = none := by
    rw [List.find?_eq_none]
    intro e he
    have hne := hbefore e (mem_exported.1 he).1
    rw [Bool.not_eq_eq_eq_not, Bool.not_true] at hne
    rw [hne]
    exact Bool.false_ne_true
  unfold exported at hnone ⊢
  rw [List.filter_append, List.find?_append, hnone, Option.none_or,
    List.filter_cons_of_pos hexport, List.find?_cons, hsymbol]

variable {w' : Workshop} {made : List Decl} {u : Session}

/-- What is live after a cycle was live before, or is the first of its name that the cycle has
made. -/
theorem Cycled.live_cases (h : Cycled w made u w')
    (hnodup : (w'.session.table.decls.map (·.symbol)).Nodup) {d : Decl}
    (hd : d ∈ w'.session.table.decls) :
    d ∈ w.session.table.decls ∨ (d.symbol ∉ w.session.table.decls.map (·.symbol) ∧
      made.find? (·.symbol == d.symbol) = some d) := by
  have hfind : w'.session.table.find? d.symbol = some d := find?_of_mem hnodup hd
  rw [h.table, DeclTable.find?_foldl_enter] at hfind
  cases hold : w.session.table.find? d.symbol with
  | some e =>
    rw [hold, Option.some_or] at hfind
    obtain rfl := Option.some.inj hfind
    exact .inl (List.mem_of_find?_eq_some hold)
  | none =>
    rw [hold, Option.none_or] at hfind
    exact .inr ⟨DeclTable.find?_eq_none.1 hold, hfind⟩

/-- A cycle goes on with what stands: what it makes comes after all that was made before. -/
theorem Standing.cycled (h : Standing history w.session) (hcycle : Cycled w made u w')
    (hnodup : (w'.session.table.decls.map (·.symbol)).Nodup)
    {more : List (TaskRun Workshop BuildTask)} (hresolved : resolvedIn more = exported made)
    (hlinked : linkedIn more = (exported made).filterMap u.value?)
    (hbuilt : ∀ f ∈ linkedIn more, ∃ x ∈ more,
      .link f ∈ (x.step runTask).spawned ∧ ∃ d, x.Builds d) :
    Standing (history ++ more) w'.session := by
  have hclaimed := hcycle.claimed h.late
  have hnames (symbol : String) : symbol ∈ w'.session.table.decls.map (·.symbol) ↔
      symbol ∈ w.session.table.decls.map (·.symbol) ∨ symbol ∈ made.map (·.symbol) := by
    rw [hcycle.table, DeclTable.mem_symbols_foldl_enter]
  refine ⟨fun d hd => ?_, fun d hd => ?_, fun d hd hexport => ?_, ?_, ?_, fun symbol => ?_, ?_,
    fun symbol => ?_, fun f hf => ?_, fun d hd hexport f hf => ?_⟩
  · rw [resolvedIn_append, hresolved, List.mem_append] at hd
    rcases hd with hd | hd
    · exact h.isExport d hd
    · exact (mem_exported.1 hd).2
  · rw [resolvedIn_append, hresolved, List.mem_append] at hd
    rw [hnames]
    rcases hd with hd | hd
    · exact .inl (h.listed d hd)
    · exact .inr (List.mem_map_of_mem (mem_exported.1 hd).1)
  · rw [resolvedIn_append, List.find?_append, hresolved]
    rcases hcycle.live_cases hnodup hd with hold | ⟨hnew, hfirst⟩
    · rw [h.first d hold hexport, Option.some_or]
    · rw [(h.find?_eq_none hnew).1, Option.none_or]
      exact find?_exported hexport hfirst
  · rw [hcycle.reserved]
    exact hclaimed.late
  · exact hclaimed.nodup h.distinct
  · rw [hclaimed.holds, h.holds, resolvedIn_append, List.find?_append, hresolved]
  · rw [hcycle.linkSet]
    exact LinkSet.nodup_foldl_insert h.unique
  · rw [hcycle.linkSet, LinkSet.find?_foldl_insert, h.links, linkedIn_append, List.find?_append,
      hlinked]
  · rw [linkedIn_append, List.mem_append] at hf
    rcases hf with hf | hf
    · obtain ⟨x, hx, hspawned, hbuilds⟩ := h.built f hf
      exact ⟨x, List.mem_append_left _ hx, hspawned, hbuilds⟩
    · obtain ⟨x, hx, hspawned, hbuilds⟩ := hbuilt f hf
      exact ⟨x, List.mem_append_right _ hx, hspawned, hbuilds⟩
  · rw [hcycle.ends d hd] at hf
    rw [linkedIn_append, List.find?_append, hlinked]
    rcases hcycle.live_cases hnodup hd with hold | ⟨hnew, hfirst⟩
    · rw [hcycle.kept d hold] at hf
      rw [h.linked d hold hexport f hf, Option.some_or]
    · rw [(h.find?_eq_none hnew).2, Option.none_or]
      exact find?_filterMap_value (find?_exported hexport hfirst) hf hcycle.named

/-! ## From cycle to cycle -/

theorem Standing.revise {setup : SessionSetup} (h : Standing history w.session)
    (hawaits : w.session.Awaits setup) (hroot : setup.settings.root = some root)
    (files : FileTree) :
    Standing (history ++ (w.begun root files).cycleHistory root)
      (w.revise root files).1.session := by
  obtain ⟨hs, -, -, -, -, -, hrun, -⟩ := begun_of_awaits hawaits hroot files
  have hbegun := h.congr (begun_products w root files).symm
  rw [hrun]
  generalize w.begun root files = v at hs hbegun
  obtain ⟨names, file, changes, problems, hrebuilt, -⟩ := exists_rebuilt hs.nodup root
  apply hbegun.cycled (cycled_of_rebuilt hs hrebuilt) (settled_runCycle hs root).nodup
  · exact resolvedIn_cycleHistory hrebuilt
  · exact (delivered_of_rebuilt hs hrebuilt).linked
  · exact fun f hf => exists_builds_of_mem_linkedIn hf

/-- A session that was just made has nothing in its tables. -/
theorem standing_createSession {setup : SessionSetup} {t t' : Toolchain} {s : Session}
    (h : t.createSession setup = (.ok s, t')) : Standing [] s := by
  obtain ⟨id, machine, context, rfl⟩ := createSession_eq_ok h
  refine ⟨?_, ?_, ?_, ?_, List.nodup_nil, fun _ => rfl, List.nodup_nil, fun _ => rfl, ?_, ?_⟩
  · exact fun d hd => absurd hd List.not_mem_nil
  · exact fun d hd => absurd hd List.not_mem_nil
  · exact fun d hd => absurd hd List.not_mem_nil
  · exact fun e he => absurd he List.not_mem_nil
  · exact fun f hf => absurd hf List.not_mem_nil
  · exact fun d hd => absurd hd List.not_mem_nil

/-- What stands after any contents is what came first in the history of all of them. -/
theorem standing_reviseAll {setup : SessionSetup} {t : Toolchain}
    (hroot : setup.settings.root = some root)
    (hcreate : t.createSession setup = (.ok w.session, w.toolchain)) (contents : List FileTree) :
    Standing (w.history root contents) (w.reviseAll root contents).session := by
  have hawaits := createSession_awaits hcreate
  induction contents using List.reverseRecOn with
  | nil => exact standing_createSession hcreate
  | append_singleton contents files ih =>
    rw [history_concat, reviseAll_concat]
    exact ih.revise (reviseAll_awaits hawaits hroot contents) hroot files

/-! ## What stands is live or was refused -/

/-- Every declaration that was to be resolved has the name of one that is live. -/
theorem Standing.exists_live {s : Session} (h : Standing history s) {d : Decl}
    (hd : d ∈ resolvedIn history) : ∃ live ∈ s.table.decls, live.symbol = d.symbol :=
  List.mem_map.1 (h.listed d hd)

theorem Standing.exportsStand {s : Session} (h : Standing history s) : ExportsStand history s := by
  refine ⟨fun d hd hexport => ?_, fun e he => ?_, h.distinct⟩
  · rw [h.holds]
    exact h.first d hd hexport
  · have hentry : s.exports.entry? e.decl.symbol = some e := find?_of_mem h.distinct he
    have hfind : s.exports.find? e.decl.symbol = some e.decl := by
      unfold ExportTable.find?
      rw [hentry]
      rfl
    rw [h.holds] at hfind
    have hasked := List.mem_of_find?_eq_some hfind
    have hexport := h.isExport e.decl hasked
    by_cases hlive : e.decl ∈ s.table.decls
    · exact .inl ⟨hlive, hexport⟩
    · right
      obtain ⟨d, hd, hsymbol⟩ := h.exists_live hasked
      refine ⟨⟨hasked, hexport, hlive⟩, d, hd, hsymbol, ?_⟩
      -- an exported declaration that is live would hold the symbol itself
      by_contra hother
      rw [Bool.not_eq_false] at hother
      have hfirst := h.first d hd hother
      rw [hsymbol, hfind] at hfirst
      obtain rfl := Option.some.inj hfirst
      exact hlive hd

theorem Standing.linksStand {s : Session} (h : Standing history s)
    (hkept : ∀ d ∈ s.table.decls, d.isExport = true →
      (d.finding s.analyzer).KeptBy s.types d (s.resolution d.id))
    (hlasting : ∀ x ∈ history, ∀ d ∈ s.table.decls, ∀ r,
      (x.step runTask).state.session.resolution d.id = .resolved r →
        s.resolution d.id = .resolved r) : LinksStand history s := by
  refine ⟨fun d hd hexport type value hresolved => ?_, fun f hf => ?_, h.unique⟩
  · have hfinding := hkept d hd hexport
    rw [hresolved] at hfinding
    refine ⟨Finding.value_of_keptBy hfinding, fun f hf => ?_⟩
    rw [h.links]
    apply h.linked d hd hexport
    unfold Session.value?
    rw [hresolved]
    exact hf
  · have hfind : s.linkSet.find? f.symbol = some f := find?_of_mem h.unique hf
    rw [h.links] at hfind
    obtain ⟨x, hx, hspawned, d, hbuilds⟩ := h.built f (List.mem_of_find?_eq_some hfind)
    obtain ⟨hsymbol, type, hresolved⟩ := hbuilds.eq_value hspawned
    have hasked := hbuilds.mem_resolvedIn hx
    have hexport := h.isExport d hasked
    by_cases hlive : d ∈ s.table.decls
    · left
      refine ⟨d, hlive, hexport, ?_⟩
      unfold Session.value?
      rw [hlasting x hx d hlive _ hresolved]
    · obtain ⟨live, hd, hname⟩ := h.exists_live hasked
      by_cases hvalue : live.isExport = true ∧ ∃ g, s.value? live = some g
      · -- the live declaration is exported and has a value, so that is what is linked
        obtain ⟨hlive', g, hg⟩ := hvalue
        have hfirst := h.linked live hd hlive' g hg
        rw [hname, ← hsymbol, hfind] at hfirst
        obtain rfl := Option.some.inj hfirst
        exact .inl ⟨live, hd, hlive', hg⟩
      · right
        refine ⟨d, ⟨hasked, hexport, hlive⟩, ⟨x, hx, hbuilds, hspawned⟩, live, hd, hname, ?_⟩
        by_cases hlive' : live.isExport = true
        · right
          cases hown : s.value? live with
          | none => rfl
          | some g => exact absurd ⟨hlive', g, hown⟩ hvalue
        · exact .inl (Bool.not_eq_true _ ▸ hlive')

/-- A session is shown any contents of its files, one after the other, and its cycles may end as
they like. Each exported declaration that is live holds its symbol; if it was resolved and has a
body, its value is linked, and no symbol is in use or linked twice. Whatever else is exported or
linked is left of a declaration that was refused because its name was taken, by one that is not
exported or, for the link, has no value. -/
theorem tables_hold_what_came_first {t : Toolchain} {setup : SessionSetup}
    (hroot : setup.settings.root = some root)
    (hcreate : t.createSession setup = (.ok w.session, w.toolchain)) (contents : List FileTree) :
    ExportsStand (w.history root contents) (w.reviseAll root contents).session ∧
      LinksStand (w.history root contents) (w.reviseAll root contents).session := by
  have hawaits := createSession_awaits hcreate
  have hstanding := standing_reviseAll hroot hcreate contents
  have hrecorded := recorded_reviseAll hawaits hroot contents
  have hsettled := (reviseAll_awaits hawaits hroot contents).settled
  refine ⟨hstanding.exportsStand, hstanding.linksStand hsettled.kept ?_⟩
  intro x hx d hd r hresolved
  have hmem : (x.step runTask).state ∈ statesOf runTask (w.history root contents) :=
    List.mem_flatMap.2 ⟨x, hx, List.mem_cons_of_mem _ (List.mem_singleton_self _)⟩
  have hlasts := (List.pairwise_append.1 hrecorded.lasting).2.2 _ hmem _
    (List.mem_singleton_self _)
  rcases hlasts d.id r hresolved with hkept | ⟨-, hgone⟩
  · exact hkept
  · have hrefers : (w.reviseAll root contents).session.refersTo d.id = true :=
      Session.refersTo_iff.2 (.inl ⟨d, hd, rfl⟩)
    rw [hgone] at hrefers
    cases hrefers

/-- A text in which an exported function has the name of another one before it. -/
def refusedText : String := "fn f() void {}\nexport fn f() void {}\n"

/-- The text without the exported function. -/
def lonelyText : String := "fn f() void {}\n"

theorem refusedText_then_lonelyText :
    ExportsStand ((sessionA refusedText).history "a" [fileA refusedText, fileA lonelyText])
        ((sessionA refusedText).reviseAll "a" [fileA refusedText, fileA lonelyText]).session ∧
      LinksStand ((sessionA refusedText).history "a" [fileA refusedText, fileA lonelyText])
        ((sessionA refusedText).reviseAll "a" [fileA refusedText, fileA lonelyText]).session :=
  tables_hold_what_came_first rfl (createSession_sessionA refusedText) _

/-- The first cycle over a text resolves its exported functions. -/
theorem resolvedIn_firstA {text : String} (hsize : (bytesOf text).length ≤ 4294967295)
    (hvalid : (parse text).error = none) :
    resolvedIn (((sessionA text).begun "a" (fileA text)).cycleHistory "a") =
      firstExported text := by
  have hread : readSource ((sessionA text).opened "a").files
      ((sessionA text).opened "a").session.settings.maxSourceSize "a" = .ok (.ok text) :=
    readSource_fileA text hsize
  exact resolvedIn_cycleHistory (rebuilt_taken rfl hread hvalid)

/-- The exported function is refused, and the cycle fails. When it is gone from the text, the next
cycle reports success; its symbol stays in use although no declaration that is live is exported. -/
theorem refused_export_outlives_its_text :
    ∃ w event d, ((sessionA refusedText).reviseAll "a" [fileA refusedText]).revise "a"
        (fileA lonelyText) = (w, some event) ∧ event.outcome = .ok ∧
      (∀ live ∈ w.session.table.decls, live.isExport = false) ∧
      w.session.exports.find? "f" = some d := by
  have hnext : ∃ w event, ((sessionA refusedText).reviseAll "a" [fileA refusedText]).revise "a"
      (fileA lonelyText) = (w, some event) ∧ event.outcome = .ok ∧
      w.session.table = tableA refusedText := by
    apply next_ok_sessionA
    all_goals decide +kernel
  obtain ⟨w, event, hrun, hok, htable⟩ := hnext
  have hlive : (tableA refusedText).decls.all (!·.isExport) = true := by decide +kernel
  have hfirst : ((firstExported refusedText).find? (·.symbol == "f")).isSome = true := by
    decide +kernel
  obtain ⟨d, hd⟩ := Option.isSome_iff_exists.1 hfirst
  have hstanding := standing_reviseAll rfl (createSession_sessionA refusedText)
    [fileA refusedText, fileA lonelyText]
  have hlast : ((sessionA refusedText).reviseAll "a" [fileA refusedText, fileA lonelyText]) = w :=
    congrArg Prod.fst hrun
  refine ⟨w, event, d, hrun, hok, ?_, ?_⟩
  · intro live hmem
    rw [htable] at hmem
    simpa using List.all_eq_true.1 hlive live hmem
  · rw [hlast] at hstanding
    rw [hstanding.holds, history, resolvedIn_append, List.find?_append,
      resolvedIn_firstA (by decide +kernel) (by decide +kernel), hd, Option.some_or]

end Workshop

end IncrementalBuild
