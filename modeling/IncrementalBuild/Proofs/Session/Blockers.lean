import IncrementalBuild.Proofs.Session.Symbols
import Mathlib.Data.List.Find
import Mathlib.Data.List.Induction

/-!
# What blocks a revision

Whether an item blocks a revision can be told from the declarations that were live before the
revision and the items before it. The first item that does decides how the revision fails, and
only the items before it add declarations. A revision that no item blocks fails only if there is
a live declaration it does not have.
-/

set_option autoImplicit false

namespace IncrementalBuild

variable {settings : Settings} {file : SourceFile} {live : DeclTable} {symbol : String}
  {item : Item} {items : List Item}

theorem firstFunction?_concat : firstFunction? symbol (items ++ [item]) =
    (firstFunction? symbol items).or (item.functionNamed? symbol) := by
  rw [firstFunction?, List.findSome?_append, List.findSome?_singleton]
  rfl

theorem firstAdded?_append (cs cs' : List Change) : firstAdded? symbol (cs ++ cs') =
    (firstAdded? symbol cs).or (firstAdded? symbol cs') := List.findSome?_append

namespace DeclTable

/-- The live declarations of whose names there is no function among some items. -/
def unmet (live : DeclTable) (items : List Item) : List Decl :=
  live.decls.filter fun d => (firstFunction? d.symbol items).isNone

/-- The live declaration of a name, if there is no function of that name among some items. -/
def unmet? (live : DeclTable) (items : List Item) (symbol : String) : Option Decl :=
  if (firstFunction? symbol items).isNone then live.find? symbol else none

theorem mem_unmet {d : Decl} :
    d ∈ live.unmet items ↔ d ∈ live.decls ∧ firstFunction? d.symbol items = none := by
  rw [unmet, List.mem_filter, Option.isNone_iff_eq_none]

theorem unmet_nil : live.unmet [] = live.decls := List.filter_eq_self.2 fun _ _ => rfl

theorem unmet_concat : live.unmet (items ++ [item]) =
    (live.unmet items).filter fun d => (item.functionNamed? d.symbol).isNone := by
  rw [unmet, unmet, List.filter_filter]
  refine List.filter_congr fun d _ => ?_
  rw [firstFunction?_concat, Option.isNone_or, Bool.and_comm]

theorem unmet_concat_other (h : ∀ symbol, item.functionNamed? symbol = none) :
    live.unmet (items ++ [item]) = live.unmet items := by
  rw [unmet_concat]
  exact List.filter_eq_self.2 fun d _ => by rw [h, Option.isNone_none]

theorem find?_unmet :
    (live.unmet items).find? (·.symbol == symbol) = live.unmet? items symbol := by
  rw [unmet, List.find?_filter, unmet?, find?]
  split
  · rename_i hnone
    refine List.find?_congr fun d _ => ?_
    by_cases hd : d.symbol = symbol
    · simp [hd, hnone]
    · simp [hd]
  · rename_i hsome
    refine List.find?_eq_none.2 fun d _ => ?_
    by_cases hd : d.symbol = symbol
    · simpa [hd] using hsome
    · simp [hd]

/-- A function meets the live declaration of its name. -/
theorem unmet_concat_function {f : FunctionItem} (hname : f.name = some symbol) :
    live.unmet (items ++ [.function f]) = (live.unmet items).filter (·.symbol != symbol) := by
  rw [unmet_concat]
  refine List.filter_congr fun d _ => ?_
  by_cases hd : d.symbol = symbol
  · simp [functionNamed?_function hname, hd]
  · simp [functionNamed?_function hname, hd, Ne.symm hd]

end DeclTable

/-- What blocks a revision at an item, given what was live before the revision and the items
before this one. -/
def Item.blocker? (settings : Settings) (file : SourceFile) (live : DeclTable)
    (before : List Item) : Item → Option Blocker
  | .comptime _ => none
  | .variable v =>
    match live.unmet? before v.name with
    | some d => some (.changedKind d v)
    | none => some (.variable v)
  | .test t => if settings.selectsTest (t.name.getD "") then some (.test t) else none
  | .function f =>
    match f.name.bind (live.unmet? before) with
    | some d => if d.bytes = slice (bytesOf file.text) f.span then none else some (.changedBody d f)
    | none => none

/-- No item blocks. -/
def Passable (settings : Settings) (file : SourceFile) (live : DeclTable) (items : List Item) :
    Prop :=
  ∀ before item after, items = before ++ item :: after →
    item.blocker? settings file live before = none

theorem passable_nil : Passable settings file live [] := by
  intro before item after h
  simp at h

theorem passable_concat : Passable settings file live (items ++ [item]) ↔
    Passable settings file live items ∧ item.blocker? settings file live items = none := by
  constructor
  · intro h
    refine ⟨fun before item' after hitems => ?_, h items item [] rfl⟩
    exact h before item' (after ++ [item]) (by rw [hitems, List.append_assoc, List.cons_append])
  · rintro ⟨hitems, hitem⟩ before item' after h
    rcases List.eq_nil_or_concat after with rfl | ⟨after, last, rfl⟩
    · obtain ⟨rfl, hlast⟩ := List.append_inj' h rfl
      rwa [← List.singleton_inj.1 hlast]
    · rw [List.concat_eq_append, ← List.cons_append, ← List.append_assoc] at h
      exact hitems before item' after (List.append_inj' h rfl).1

/-- Either no item blocks, or there is a first one that does. -/
theorem passable_or_exists (settings : Settings) (file : SourceFile) (live : DeclTable)
    (items : List Item) : Passable settings file live items ∨
      ∃ before item after b, items = before ++ item :: after ∧
        Passable settings file live before ∧
        item.blocker? settings file live before = some b := by
  induction items using List.reverseRecOn with
  | nil => exact .inl passable_nil
  | append_singleton items item ih =>
    rcases ih with hpass | ⟨before, first, after, b, hitems, hpass, hfirst⟩
    · cases hitem : item.blocker? settings file live items with
      | none => exact .inl (passable_concat.2 ⟨hpass, hitem⟩)
      | some b => exact .inr ⟨items, item, [], b, rfl, hpass, hitem⟩
    · refine .inr ⟨before, first, after ++ [item], b, ?_, hpass, hfirst⟩
      rw [hitems, List.append_assoc, List.cons_append]

namespace ChangePlan

/-- An item that blocks ends the plan. -/
theorem ofItems_cons_blocked {before rest : List Item} {b : Blocker}
    (h : item.blocker? settings file live before = some b) :
    ofItems settings file (live.unmet before) (item :: rest) = blocked b := by
  cases item with
  | comptime block => cases h
  | «variable» v =>
    rw [Item.blocker?] at h
    rw [ofItems, DeclTable.find?_unmet]
    cases hlive : live.unmet? before v.name <;> rw [hlive] at h <;> cases h <;> rfl
  | test t =>
    rw [Item.blocker?] at h
    split at h
    · rename_i hselected
      cases h
      rw [ofItems, if_pos hselected]
    · cases h
  | function f =>
    rw [Item.blocker?] at h
    cases hname : f.name with
    | none =>
      rw [hname] at h
      cases h
    | some symbol =>
      rw [hname, Option.bind_some] at h
      rw [ofItems, hname]
      dsimp only
      rw [DeclTable.find?_unmet]
      cases hlive : live.unmet? before symbol with
      | none =>
        rw [hlive] at h
        cases h
      | some d =>
        rw [hlive] at h
        dsimp only at h ⊢
        split at h
        · cases h
        · rename_i hbytes
          cases h
          rw [if_neg hbytes]

/-- An item that does not block is taken: under a name that is not live, it adds the function
that it is. -/
theorem ofItems_cons_taken {before : List Item} (rest : List Item)
    (h : item.blocker? settings file live before = none) :
    ∃ cs, ofItems settings file (live.unmet before) (item :: rest) =
        ⟨cs ++ (ofItems settings file (live.unmet (before ++ [item])) rest).changes,
          (ofItems settings file (live.unmet (before ++ [item])) rest).blocker⟩ ∧
      ∀ symbol, live.find? symbol = none → firstAdded? symbol cs = item.functionNamed? symbol := by
  cases item with
  | comptime block =>
    rw [DeclTable.unmet_concat_other fun _ => rfl]
    exact ⟨[.runComptime block], by rw [ofItems]; rfl, fun _ _ => rfl⟩
  | «variable» v =>
    rw [Item.blocker?] at h
    split at h <;> cases h
  | test t =>
    rw [Item.blocker?] at h
    split at h
    · cases h
    · rename_i hselected
      rw [DeclTable.unmet_concat_other fun _ => rfl]
      exact ⟨[], by rw [ofItems, if_neg hselected]; rfl, fun _ _ => rfl⟩
  | function f =>
    rw [Item.blocker?] at h
    cases hname : f.name with
    | none =>
      have hnamed := functionNamed?_nameless hname
      rw [DeclTable.unmet_concat_other hnamed]
      refine ⟨[.reportNameless f], ?_, fun symbol _ => (hnamed symbol).symm⟩
      rw [ofItems, hname]
      rfl
    | some symbol =>
      have hnamed := functionNamed?_function hname
      rw [hname, Option.bind_some] at h
      rw [ofItems, hname, DeclTable.unmet_concat_function hname]
      dsimp only
      rw [DeclTable.find?_unmet]
      cases hlive : live.unmet? before symbol with
      | none =>
        have hfree : (live.unmet before).filter (·.symbol != symbol) = live.unmet before := by
          rw [← DeclTable.find?_unmet] at hlive
          exact List.filter_eq_self.2 fun d hd => by simpa using ne_of_find?_eq_none hlive hd
        rw [hfree]
        refine ⟨[.add symbol f], rfl, fun symbol' _ => ?_⟩
        rw [hnamed]
        exact List.findSome?_singleton
      | some d =>
        rw [hlive] at h
        dsimp only at h ⊢
        split at h
        · rename_i hbytes
          rw [if_pos hbytes]
          refine ⟨[], rfl, fun symbol' hfree => ?_⟩
          -- the name of the function is live, so it is not the one asked for
          have hne : symbol ≠ symbol' := by
            rintro rfl
            rw [DeclTable.unmet?, hfree, ite_self] at hlive
            cases hlive
          rw [hnamed, if_neg hne]
          rfl
        · cases h

/-- Items that do not block are taken: under each name that is not live, they add the first
function of that name. -/
theorem ofItems_append (h : Passable settings file live items) (rest : List Item) :
    ∃ cs, ofItems settings file live.decls (items ++ rest) =
        ⟨cs ++ (ofItems settings file (live.unmet items) rest).changes,
          (ofItems settings file (live.unmet items) rest).blocker⟩ ∧
      ∀ symbol, live.find? symbol = none → firstAdded? symbol cs = firstFunction? symbol items := by
  induction items using List.reverseRecOn generalizing rest with
  | nil =>
    rw [DeclTable.unmet_nil]
    exact ⟨[], rfl, fun _ _ => rfl⟩
  | append_singleton items item ih =>
    obtain ⟨hitems, hitem⟩ := passable_concat.1 h
    obtain ⟨cs, heq, hfirst⟩ := ih hitems (item :: rest)
    obtain ⟨cs', heq', hfirst'⟩ := ofItems_cons_taken rest hitem
    refine ⟨cs ++ cs', ?_, fun symbol hfree => ?_⟩
    · rw [List.append_assoc, List.singleton_append, heq, heq', List.append_assoc]
    · rw [firstAdded?_append, hfirst symbol hfree, hfirst' symbol hfree, firstFunction?_concat]

end ChangePlan

/-! ## What is live afterwards -/

namespace DeclTable

/-- A table has gained the first functions of some items under the names that were free: what
was there still is, and each of these functions is a new declaration. -/
def Gains (t t' : DeclTable) (next : DeclId) (file : SourceFile) (items : List Item) : Prop :=
  ∃ added, t'.decls = t.decls ++ added ∧ (added.map (·.symbol)).Nodup ∧
    (∀ d ∈ added, next ≤ d.id) ∧
    ∀ symbol f file', (symbol, f, file') ∈ added.map Decl.content ↔
      t.find? symbol = none ∧ firstFunction? symbol items = some f ∧ file' = file

/-- Of the declarations that are to enter a table, some do, each under another free name. -/
theorem exists_entered (t : DeclTable) (decls : List Decl) :
    ∃ added, added.Sublist decls ∧ (decls.foldl enter t).decls = t.decls ++ added ∧
      (added.map (·.symbol)).Nodup ∧ ∀ d ∈ added, t.find? d.symbol = none := by
  induction decls generalizing t with
  | nil => exact ⟨[], .slnil, (List.append_nil _).symm, List.nodup_nil, by simp⟩
  | cons d decls ih =>
    obtain ⟨added, hsub, hdecls, hnodup, hfree⟩ := ih (t.enter d)
    rw [List.foldl_cons, hdecls]
    cases hfind : t.find? d.symbol with
    | some existing =>
      have henter : t.enter d = t := by
        unfold enter insert
        rw [hfind]
      rw [henter] at hfree ⊢
      exact ⟨added, hsub.cons d, rfl, hnodup, hfree⟩
    | none =>
      have henter : (t.enter d).decls = t.decls ++ [d] := by
        unfold enter insert
        rw [hfind]
      have hlater (d' : Decl) (hd' : d' ∈ added) :
          t.find? d'.symbol = none ∧ d.symbol ≠ d'.symbol := by
        have hnone := hfree d' hd'
        rw [find?_enter, Option.or_eq_none_iff] at hnone
        exact ⟨hnone.1, by simpa using hnone.2⟩
      refine ⟨d :: added, hsub.cons_cons d, ?_, ?_, ?_⟩
      · rw [henter, List.append_assoc, List.singleton_append]
      · rw [List.map_cons, List.nodup_cons]
        refine ⟨fun hmem => ?_, hnodup⟩
        obtain ⟨d', hd', hsymbol⟩ := List.mem_map.1 hmem
        exact (hlater d' hd').2 hsymbol.symm
      · rintro d' (_ | ⟨_, hd'⟩)
        · exact hfind
        · exact (hlater d' hd').1

end DeclTable

namespace Workshop

/-- Among declarations of different names, each is found by its name. -/
theorem find?_of_nodup {decls : List Decl} (h : (decls.map (·.symbol)).Nodup) {d : Decl}
    (hd : d ∈ decls) : decls.find? (·.symbol == d.symbol) = some d := by
  cases hfind : decls.find? (·.symbol == d.symbol) with
  | none => exact absurd rfl (ChangePlan.ne_of_find?_eq_none hfind hd)
  | some d' =>
    have hsymbol : d'.symbol = d.symbol := by simpa using List.find?_some hfind
    rw [List.inj_on_of_nodup_map h (List.mem_of_find?_eq_some hfind) hd hsymbol]

/-- What taking a revision over adds, if its changes add the first functions of some items. -/
theorem gains_takeOver (w : Workshop) (file : SourceFile) (items : List Item)
    (h : ∀ symbol, w.session.table.find? symbol = none →
      firstAdded? symbol (planFor w file).changes = firstFunction? symbol items) :
    w.session.table.Gains (takeOver w file).state.session.table w.session.nextDecl file items := by
  have htable : (takeOver w file).state.session.table =
      (Change.made (shown w file).names file w.session.nextDecl (planFor w file).changes).foldl
        DeclTable.enter w.session.table := by
    have hnext : (shown w file).nextDecl = w.session.nextDecl := by
      unfold shown
      split <;> rfl
    rw [takeOver_eq, foldl_applyChange]
    dsimp only
    rw [shown_table, hnext]
  obtain ⟨added, hsub, hdecls, hnodup, hfree⟩ := DeclTable.exists_entered w.session.table
    (Change.made (shown w file).names file w.session.nextDecl (planFor w file).changes)
  rw [← htable] at hdecls
  have hcontent {symbol : String} (hnone : w.session.table.find? symbol = none) :
      (added.find? (·.symbol == symbol)).map Decl.content =
        (firstFunction? symbol items).map fun f => (symbol, f, file) := by
    have hfind : ((takeOver w file).state.session.table.find? symbol).map Decl.content =
        ((w.session.table.find? symbol).map Decl.content).or
          ((firstAdded? symbol (planFor w file).changes).map fun f => (symbol, f, file)) :=
      find?_takeOver
    rw [hnone, h symbol hnone, Option.map_none, Option.none_or] at hfind
    rw [← hfind, DeclTable.find?, hdecls, List.find?_append]
    rw [DeclTable.find?] at hnone
    rw [hnone, Option.none_or]
  refine ⟨added, hdecls, hnodup, fun d hd => Change.le_id_made d (hsub.subset hd), ?_⟩
  intro symbol f file'
  constructor
  · intro hmem
    obtain ⟨d, hd, hd'⟩ := List.mem_map.1 hmem
    have hfound := hcontent (hfree d hd)
    rw [find?_of_nodup hnodup hd, Option.map_some, hd'] at hfound
    obtain ⟨g, hfirst, hg⟩ := Option.map_eq_some_iff.1 hfound.symm
    simp only [Prod.mk.injEq] at hg
    obtain ⟨hsymbol, rfl, rfl⟩ := hg
    rw [← hsymbol]
    exact ⟨hfree d hd, hfirst, rfl⟩
  · rintro ⟨hnone, hfirst, rfl⟩
    have hfound := hcontent hnone
    rw [hfirst, Option.map_some] at hfound
    obtain ⟨d, hd, hd'⟩ := Option.map_eq_some_iff.1 hfound
    exact List.mem_map.2 ⟨d, List.mem_of_find?_eq_some hd, hd'⟩

/-! ## How it ends -/

variable {w : Workshop}

/-- A revision is taken over up to the first item that blocks, which decides how that fails. -/
theorem takeOver_fails_at {before after : List Item} {b : Blocker}
    (hitems : file.items = before ++ item :: after)
    (hpass : Passable w.session.settings file w.session.table before)
    (hb : item.blocker? w.session.settings file w.session.table before = some b) :
    (takeOver w file).outcome = .failed (b.toBuildError w.session.settings file) ∧
      w.session.table.Gains (takeOver w file).state.session.table w.session.nextDecl file
        before := by
  obtain ⟨cs, hofItems, hfirst⟩ := ChangePlan.ofItems_append hpass (item :: after)
  rw [ChangePlan.ofItems_cons_blocked hb, ← hitems] at hofItems
  have hplan : planFor w file = ⟨cs ++ [], some b⟩ := hofItems
  refine ⟨?_, gains_takeOver w file before fun symbol hfree => ?_⟩
  · rw [takeOver_outcome_eq, hplan]
  · rw [hplan, List.append_nil]
    exact hfirst symbol hfree

/-- A revision that no item blocks is taken over as a whole, and that fails exactly if some live
declaration is left over. -/
theorem takeOver_passable (hpass : Passable w.session.settings file w.session.table file.items) :
    w.session.table.Gains (takeOver w file).state.session.table w.session.nextDecl file file.items ∧
      ((takeOver w file).outcome = .done ∧ w.session.table.unmet file.items = [] ∨
        ∃ d ∈ w.session.table.unmet file.items, (takeOver w file).outcome =
          .failed ((Blocker.deleted d).toBuildError w.session.settings file)) := by
  obtain ⟨cs, hofItems, hfirst⟩ := ChangePlan.ofItems_append hpass []
  rw [List.append_nil] at hofItems
  have hplan : planFor w file = _ := hofItems
  have hchanges : (ChangePlan.ofItems w.session.settings file
      (w.session.table.unmet file.items) []).changes = [] := by
    cases w.session.table.unmet file.items <;> rfl
  refine ⟨gains_takeOver w file file.items fun symbol hfree => ?_, ?_⟩
  · rw [hplan, hchanges, List.append_nil]
    exact hfirst symbol hfree
  · rw [takeOver_outcome_eq, hplan]
    cases w.session.table.unmet file.items with
    | nil => exact .inl ⟨rfl, rfl⟩
    | cons d others => exact .inr ⟨d, List.mem_cons_self .., rfl⟩

theorem kind_ne_deletedDecl {before : List Item} {b : Blocker}
    (h : item.blocker? settings file live before = some b) :
    (b.toBuildError settings file).kind ≠ .unimplemented .deletedDecl := by
  cases item with
  | comptime block => cases h
  | _ =>
    rw [Item.blocker?] at h
    repeat' split at h
    all_goals
      cases h <;> simp [Blocker.toBuildError, BuildError.unimplemented]

/-- Taking a revision over fails exactly if an item of it blocks, or some live declaration has no
function of its name in it. The first item that blocks decides how it fails, and a missing
declaration only if no item blocks. What was live still is, and the items before the one that
blocks, or else all items, add their first functions under the names that were not live. -/
theorem takeOver_verdict (w : Workshop) (file : SourceFile) :
    ((takeOver w file).outcome ≠ .done ↔
      (∃ before item after b, file.items = before ++ item :: after ∧
        item.blocker? w.session.settings file w.session.table before = some b) ∨
      ∃ d ∈ w.session.table.decls, firstFunction? d.symbol file.items = none) ∧
    (∀ before item after b, file.items = before ++ item :: after →
      Passable w.session.settings file w.session.table before →
      item.blocker? w.session.settings file w.session.table before = some b →
      (takeOver w file).outcome = .failed (b.toBuildError w.session.settings file) ∧
        w.session.table.Gains (takeOver w file).state.session.table w.session.nextDecl file
          before) ∧
    (Passable w.session.settings file w.session.table file.items →
      w.session.table.Gains (takeOver w file).state.session.table w.session.nextDecl file
        file.items ∧
      ((takeOver w file).outcome ≠ .done → ∃ d ∈ w.session.table.decls,
        firstFunction? d.symbol file.items = none ∧ (takeOver w file).outcome =
          .failed ((Blocker.deleted d).toBuildError w.session.settings file))) ∧
    ∀ e, (takeOver w file).outcome = .failed e → e.kind = .unimplemented .deletedDecl →
      Passable w.session.settings file w.session.table file.items := by
  refine ⟨⟨fun hfailed => ?_, ?_⟩, fun before item after b hitems hpass hb =>
    takeOver_fails_at hitems hpass hb, fun hpass => ?_, fun e he hkind => ?_⟩
  · rcases passable_or_exists w.session.settings file w.session.table file.items with
      hpass | ⟨before, item, after, b, hitems, -, hb⟩
    · rcases (takeOver_passable hpass).2 with ⟨hdone, -⟩ | ⟨d, hd, -⟩
      · exact absurd hdone hfailed
      · exact .inr ⟨d, DeclTable.mem_unmet.1 hd⟩
    · exact .inl ⟨before, item, after, b, hitems, hb⟩
  · intro hwhy hdone
    rcases passable_or_exists w.session.settings file w.session.table file.items with
      hpass | ⟨before, item, after, b, hitems, hpass, hb⟩
    · rcases hwhy with ⟨before, item, after, b, hitems, hb⟩ | ⟨d, hd, hmissing⟩
      · rw [hpass before item after hitems] at hb
        cases hb
      · rcases (takeOver_passable hpass).2 with ⟨-, hnone⟩ | ⟨d, -, hfailed⟩
        · exact List.not_mem_nil (hnone ▸ DeclTable.mem_unmet.2 ⟨hd, hmissing⟩)
        · rw [hdone] at hfailed
          cases hfailed
    · rw [(takeOver_fails_at hitems hpass hb).1] at hdone
      cases hdone
  · obtain ⟨hgains, hend⟩ := takeOver_passable hpass
    refine ⟨hgains, fun hfailed => ?_⟩
    rcases hend with ⟨hdone, -⟩ | ⟨d, hd, hdeleted⟩
    · exact absurd hdone hfailed
    · obtain ⟨hlive, hmissing⟩ := DeclTable.mem_unmet.1 hd
      exact ⟨d, hlive, hmissing, hdeleted⟩
  · rcases passable_or_exists w.session.settings file w.session.table file.items with
      hpass | ⟨before, item, after, b, hitems, hpass, hb⟩
    · exact hpass
    · rw [(takeOver_fails_at hitems hpass hb).1] at he
      cases he
      exact absurd hkind (kind_ne_deletedDecl hb)

end Workshop

end IncrementalBuild
