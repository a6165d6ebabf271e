import IncrementalBuild.Session.Changes
import Mathlib.Data.List.Nodup

/-!
# Revisions that are not blocked

A revision is not blocked when each of its items is a block, a test that is not selected, a
function without a name, one whose name is not live, or one that has the bytes of the live
function of its name, and when no live declaration is left over. Then every live
declaration has the bytes of the first function of its name, what is added first under any
other name is the first function of that name, and no session is blocked by the revision
that has no declarations yet.
-/

set_option autoImplicit false

namespace IncrementalBuild

/-- The function an item is, if it has the given name. -/
def Item.functionNamed? (symbol : String) : Item → Option FunctionItem
  | .function f => if f.name = some symbol then some f else none
  | _ => none

theorem functionNamed?_function {f : FunctionItem} {name : String} (hname : f.name = some name)
    (symbol : String) :
    (Item.function f).functionNamed? symbol = if name = symbol then some f else none := by
  simp only [Item.functionNamed?, hname, Option.some.injEq]

theorem functionNamed?_nameless {f : FunctionItem} (hname : f.name = none) (symbol : String) :
    (Item.function f).functionNamed? symbol = none := by
  rw [Item.functionNamed?, hname, if_neg (by simp)]

/-- The first function of a name. -/
def firstFunction? (symbol : String) (items : List Item) : Option FunctionItem :=
  items.findSome? (·.functionNamed? symbol)

theorem firstFunction?_self {symbol : String} {f : FunctionItem} {rest : List Item}
    (h : f.name = some symbol) : firstFunction? symbol (.function f :: rest) = some f := by
  rw [firstFunction?, List.findSome?_cons, Item.functionNamed?, if_pos h]

theorem firstFunction?_other {symbol : String} {f : FunctionItem} {rest : List Item}
    (h : f.name ≠ some symbol) :
    firstFunction? symbol (.function f :: rest) = firstFunction? symbol rest := by
  rw [firstFunction?, List.findSome?_cons, Item.functionNamed?, if_neg h]
  rfl

/-- A change is due to one of some items. -/
def Change.IsOf (items : List Item) : Change → Prop
  | .runComptime block => .comptime block ∈ items
  | .reportNameless f => f.name = none ∧ .function f ∈ items
  | .add symbol f => f.name = some symbol ∧ .function f ∈ items

theorem Change.IsOf.cons {items : List Item} {c : Change} (h : c.IsOf items) (item : Item) :
    c.IsOf (item :: items) := by
  cases c with
  | runComptime block => exact List.mem_cons_of_mem _ h
  | reportNameless f => exact ⟨h.1, List.mem_cons_of_mem _ h.2⟩
  | add symbol f => exact ⟨h.1, List.mem_cons_of_mem _ h.2⟩

/-- The function a change adds, if it adds one under the given name. -/
def Change.added? (symbol : String) : Change → Option FunctionItem
  | .add name f => if name = symbol then some f else none
  | _ => none

/-- The first function that changes add under a name. -/
def firstAdded? (symbol : String) (changes : List Change) : Option FunctionItem :=
  changes.findSome? (·.added? symbol)

namespace ChangePlan

/-- The items of a revision against the live declarations no item has named yet, and the changes
they make, when nothing blocks. -/
inductive Unblocked (settings : Settings) (file : SourceFile) :
    List Decl → List Item → List Change → Prop where
  | done : Unblocked settings file [] [] []
  | comptime {stale : List Decl} {block : Span} {rest : List Item} {changes : List Change} :
      Unblocked settings file stale rest changes →
      Unblocked settings file stale (.comptime block :: rest) (.runComptime block :: changes)
  | test {stale : List Decl} {t : TestItem} {rest : List Item} {changes : List Change} :
      ¬settings.selectsTest (t.name.getD "") = true →
      Unblocked settings file stale rest changes →
      Unblocked settings file stale (.test t :: rest) changes
  | nameless {stale : List Decl} {f : FunctionItem} {rest : List Item} {changes : List Change} :
      f.name = none → Unblocked settings file stale rest changes →
      Unblocked settings file stale (.function f :: rest) (.reportNameless f :: changes)
  | add {stale : List Decl} {f : FunctionItem} {symbol : String} {rest : List Item}
      {changes : List Change} :
      f.name = some symbol → stale.find? (·.symbol == symbol) = none →
      Unblocked settings file stale rest changes →
      Unblocked settings file stale (.function f :: rest) (.add symbol f :: changes)
  | keep {stale : List Decl} {live : Decl} {f : FunctionItem} {symbol : String}
      {rest : List Item} {changes : List Change} :
      f.name = some symbol → stale.find? (·.symbol == symbol) = some live →
      live.bytes = slice (bytesOf file.text) f.span →
      Unblocked settings file (stale.filter (·.symbol != symbol)) rest changes →
      Unblocked settings file stale (.function f :: rest) changes

variable {settings : Settings} {file : SourceFile} {stale : List Decl} {items : List Item}
  {changes : List Change} {symbol : String}

/-- A plan without a blocker is one in which nothing blocks. -/
theorem unblocked_of_blocker (h : (ofItems settings file stale items).blocker = none) :
    Unblocked settings file stale items (ofItems settings file stale items).changes := by
  fun_induction ofItems settings file stale items with
  | case1 => exact .done
  | case2 => cases h
  | case3 stale block rest ih => exact .comptime (ih h)
  | case4 => cases h
  | case5 => cases h
  | case6 => cases h
  | case7 stale t rest hselected ih => exact .test hselected (ih h)
  | case8 stale f rest hname ih => exact .nameless hname (ih h)
  | case9 stale f rest symbol hname hlive ih => exact .add hname hlive (ih h)
  | case10 stale f rest symbol hname live hlive hbytes ih => exact .keep hname hlive hbytes (ih h)
  | case11 => cases h

theorem Unblocked.ofItems_eq (h : Unblocked settings file stale items changes) :
    ofItems settings file stale items = { changes } := by
  induction h with
  | done => rw [ofItems]
  | comptime _ ih => rw [ofItems, ih, after]
  | test hselected _ ih => rw [ofItems, if_neg hselected, ih]
  | nameless hname _ ih =>
    rw [ofItems, hname]
    dsimp only
    rw [ih, after]
  | add hname hlive _ ih =>
    rw [ofItems, hname]
    dsimp only
    rw [hlive, ih]
    rfl
  | keep hname hlive hbytes _ ih =>
    rw [ofItems, hname]
    dsimp only
    rw [hlive]
    dsimp only
    rw [if_pos hbytes, ih]

/-- What is not live is not in the way: the revision is not blocked for a session without
declarations. -/
theorem Unblocked.fresh (h : Unblocked settings file stale items changes) :
    ∃ changes', Unblocked settings file [] items changes' := by
  induction h with
  | done => exact ⟨_, .done⟩
  | comptime _ ih =>
    obtain ⟨changes', ih⟩ := ih
    exact ⟨_, .comptime ih⟩
  | test hselected _ ih =>
    obtain ⟨changes', ih⟩ := ih
    exact ⟨_, .test hselected ih⟩
  | nameless hname _ ih =>
    obtain ⟨changes', ih⟩ := ih
    exact ⟨_, .nameless hname ih⟩
  | add hname _ _ ih =>
    obtain ⟨changes', ih⟩ := ih
    exact ⟨_, .add hname rfl ih⟩
  | keep hname _ _ _ ih =>
    obtain ⟨changes', ih⟩ := ih
    exact ⟨_, .add hname rfl ih⟩

theorem ne_of_find?_eq_none (h : stale.find? (·.symbol == symbol) = none) {d : Decl}
    (hd : d ∈ stale) : d.symbol ≠ symbol := by
  simpa using List.find?_eq_none.1 h d hd

/-- Every live declaration has the bytes of the first function of its name. -/
theorem Unblocked.kept (h : Unblocked settings file stale items changes)
    (hnodup : (stale.map (·.symbol)).Nodup) :
    ∀ d ∈ stale, ∃ f, firstFunction? d.symbol items = some f ∧
      d.bytes = slice (bytesOf file.text) f.span := by
  induction h with
  | done => simp
  | comptime _ ih => exact ih hnodup
  | test _ _ ih => exact ih hnodup
  | nameless hname _ ih =>
    intro d hd
    rw [firstFunction?_other (by simp [hname])]
    exact ih hnodup d hd
  | add hname hlive _ ih =>
    intro d hd
    have hne := ne_of_find?_eq_none hlive hd
    rw [firstFunction?_other (by simpa [hname] using hne.symm)]
    exact ih hnodup d hd
  | @keep stale live f symbol rest changes hname hlive hbytes _ ih =>
    intro d hd
    by_cases hd' : d.symbol = symbol
    · have hsymbol : live.symbol = symbol := by simpa using List.find?_some hlive
      have heq : d = live :=
        List.inj_on_of_nodup_map hnodup hd (List.mem_of_find?_eq_some hlive)
          (hd'.trans hsymbol.symm)
      exact ⟨f, firstFunction?_self (by rw [hname, hd']), by rw [heq, hbytes]⟩
    · rw [firstFunction?_other (by simpa [hname] using Ne.symm hd')]
      refine ih (hnodup.sublist ?_) d (List.mem_filter.2 ⟨hd, by simpa using hd'⟩)
      exact List.filter_sublist.map _

/-- What is added first under a name that is not live is the first function of that name. -/
theorem Unblocked.firstAdded?_eq (h : Unblocked settings file stale items changes)
    (hsymbol : stale.find? (·.symbol == symbol) = none) :
    firstAdded? symbol changes = firstFunction? symbol items := by
  induction h with
  | done => rfl
  | comptime _ ih => exact ih hsymbol
  | test _ _ ih => exact ih hsymbol
  | nameless hname _ ih =>
    rw [firstFunction?_other (by simp [hname])]
    exact ih hsymbol
  | @add stale f name rest changes hname _ _ ih =>
    by_cases heq : name = symbol
    · rw [firstFunction?_self (by rw [hname, heq]), firstAdded?, List.findSome?_cons,
        Change.added?, if_pos heq]
    · rw [firstFunction?_other (by simpa [hname] using heq), ← ih hsymbol, firstAdded?,
        List.findSome?_cons, Change.added?, if_neg heq]
      rfl
  | @keep stale live f name rest changes hname hlive _ _ ih =>
    have hne : name ≠ symbol := by
      rintro rfl
      rw [hsymbol] at hlive
      cases hlive
    rw [firstFunction?_other (by simpa [hname] using hne)]
    refine ih (List.find?_eq_none.2 fun d hd => ?_)
    simpa using ne_of_find?_eq_none hsymbol (List.mem_of_mem_filter hd)

/-- Each change comes from an item of the revision. -/
theorem isOf_of_mem {c : Change} (h : c ∈ (ofItems settings file stale items).changes) :
    c.IsOf items := by
  fun_induction ofItems settings file stale items with
  | case1 => cases h
  | case2 => cases h
  | case3 stale block rest ih =>
    rcases List.mem_cons.1 h with rfl | h
    · exact List.mem_cons_self ..
    · exact (ih h).cons _
  | case4 => cases h
  | case5 => cases h
  | case6 => cases h
  | case7 stale t rest _ ih => exact (ih h).cons _
  | case8 stale g rest hname ih =>
    rcases List.mem_cons.1 h with rfl | h
    · exact ⟨hname, List.mem_cons_self ..⟩
    · exact (ih h).cons _
  | case9 stale g rest name hname _ ih =>
    rcases List.mem_cons.1 h with rfl | h
    · exact ⟨hname, List.mem_cons_self ..⟩
    · exact (ih h).cons _
  | case10 stale g rest name hname live _ _ ih => exact (ih h).cons _
  | case11 => cases h

/-- Functions are added under their names. -/
theorem added_of_mem {f : FunctionItem}
    (h : .add symbol f ∈ (ofItems settings file stale items).changes) :
    f.name = some symbol ∧ .function f ∈ items := isOf_of_mem h

end ChangePlan

end IncrementalBuild
