import IncrementalBuild.Proofs.Session.CleanTable
import IncrementalBuild.Proofs.Session.Diagnosis
import IncrementalBuild.Proofs.Session.Settled

/-!
# A revision that is seen again

When the table already shows a text, its first function of each name is there and is left alone.
A later function of a name that was there before finds nothing to be compared with, and is added
like a new one; blocks run again and functions without a name are reported again. All of this was
also done when the text was first taken over.
-/

set_option autoImplicit false

namespace IncrementalBuild

/-- The exported functions that have the name of an earlier one, or one of the names in `seen`. -/
def repeatedExports : (seen : List String) → List FunctionItem → List FunctionItem
  | _, [] => []
  | seen, f :: fs =>
    match f.name with
    | none => repeatedExports seen fs
    | some symbol =>
      if symbol ∈ seen then
        if f.isExport then f :: repeatedExports seen fs else repeatedExports seen fs
      else repeatedExports (symbol :: seen) fs

namespace ChangePlan

/-- What is done about items whose names are live, apart from those in `seen`, which earlier items
had. -/
def again : (seen : List String) → List Item → List Change
  | _, [] => []
  | seen, .comptime block :: rest => .runComptime block :: again seen rest
  | seen, .variable _ :: rest => again seen rest
  | seen, .test _ :: rest => again seen rest
  | seen, .function f :: rest =>
    match f.name with
    | none => .reportNameless f :: again seen rest
    | some symbol =>
      if symbol ∈ seen then .add symbol f :: again seen rest else again (symbol :: seen) rest

variable {settings : Settings} {file : SourceFile} {stale stale' : List Decl} {items : List Item}
  {changes : List Change} {seen : List String}

/-- The live declarations that no item has named yet show the items that are left: each has the
bytes of the first function of its name, and every name but those in `seen` is live. -/
structure Left (file : SourceFile) (seen : List String) (stale : List Decl) (items : List Item) :
    Prop where
  nodup : (stale.map (·.symbol)).Nodup
  unseen : ∀ d ∈ stale, d.symbol ∉ seen
  first : ∀ d ∈ stale, ∃ f, firstFunction? d.symbol items = some f ∧
    d.bytes = slice (bytesOf file.text) f.span
  live : ∀ f, .function f ∈ items → ∀ symbol, f.name = some symbol → symbol ∉ seen →
    symbol ∈ stale.map (·.symbol)

/-- An item that is no function with a name leaves what is left. -/
theorem Left.tail {item : Item} {rest : List Item} (h : Left file seen stale (item :: rest))
    (hitem : ∀ f, item = .function f → f.name = none) : Left file seen stale rest := by
  refine ⟨h.nodup, h.unseen, fun d hd => ?_, fun f hf => h.live f (List.mem_cons_of_mem _ hf)⟩
  obtain ⟨f, hf, hbytes⟩ := h.first d hd
  refine ⟨f, ?_, hbytes⟩
  rw [firstFunction?, List.findSome?_cons] at hf
  cases item with
  | function g =>
    rw [functionNamed?_nameless (hitem g rfl)] at hf
    exact hf
  | _ => exact hf

/-- A function whose name was seen leaves what is left. -/
theorem Left.repeated {f : FunctionItem} {symbol : String} {rest : List Item}
    (h : Left file seen stale (.function f :: rest)) (hname : f.name = some symbol)
    (hseen : symbol ∈ seen) :
    stale.find? (·.symbol == symbol) = none ∧ Left file seen stale rest := by
  have hother : ∀ d ∈ stale, d.symbol ≠ symbol := by
    rintro d hd rfl
    exact h.unseen d hd hseen
  constructor
  · rw [List.find?_eq_none]
    intro d hd
    rw [beq_iff_eq]
    exact hother d hd
  · refine ⟨h.nodup, h.unseen, fun d hd => ?_, fun g hg => h.live g (List.mem_cons_of_mem _ hg)⟩
    obtain ⟨g, hg, hbytes⟩ := h.first d hd
    rw [firstFunction?_other] at hg
    · exact ⟨g, hg, hbytes⟩
    · rw [hname]
      exact fun heq => hother d hd (Option.some.inj heq).symm

/-- A function whose name was not seen is live, with the bytes it has. -/
theorem Left.named {f : FunctionItem} {symbol : String} {rest : List Item}
    (h : Left file seen stale (.function f :: rest)) (hname : f.name = some symbol)
    (hseen : symbol ∉ seen) :
    ∃ live, stale.find? (·.symbol == symbol) = some live ∧
      live.bytes = slice (bytesOf file.text) f.span ∧
      Left file (symbol :: seen) (stale.filter (·.symbol != symbol)) rest := by
  obtain ⟨d, hd, hsymbol⟩ := List.mem_map.1 (h.live f (List.mem_cons_self ..) symbol hname hseen)
  cases hfind : stale.find? (·.symbol == symbol) with
  | none => exact absurd hsymbol (ne_of_find?_eq_none hfind hd)
  | some live =>
    have hlive := List.mem_of_find?_eq_some hfind
    have hlive' : live.symbol = symbol := by simpa using List.find?_some hfind
    obtain ⟨g, hg, hbytes⟩ := h.first live hlive
    rw [firstFunction?_self (by rw [hname, hlive'])] at hg
    obtain rfl := Option.some.inj hg
    refine ⟨live, rfl, hbytes, h.nodup.sublist (List.filter_sublist.map _), ?_, ?_, ?_⟩
    · intro e he
      obtain ⟨he, hne⟩ := List.mem_filter.1 he
      rw [List.mem_cons, not_or]
      exact ⟨by simpa using hne, h.unseen e he⟩
    · intro e he
      obtain ⟨he, hne⟩ := List.mem_filter.1 he
      obtain ⟨g, hg, hbytes'⟩ := h.first e he
      have hne' : e.symbol ≠ symbol := by simpa using hne
      rw [firstFunction?_other] at hg
      · exact ⟨g, hg, hbytes'⟩
      · rw [hname]
        exact fun heq => hne' (Option.some.inj heq).symm
    · intro g hg name hgname hnew
      rw [List.mem_cons, not_or] at hnew
      obtain ⟨e, he, rfl⟩ :=
        List.mem_map.1 (h.live g (List.mem_cons_of_mem _ hg) name hgname hnew.2)
      exact List.mem_map.2 ⟨e, List.mem_filter.2 ⟨he, by simpa using hnew.1⟩, rfl⟩

/-- A revision that was not blocked before is not blocked when the table shows it, and only what
has the name of an earlier function is added. -/
theorem Unblocked.again (h : Unblocked settings file stale items changes)
    (hleft : Left file seen stale' items) :
    Unblocked settings file stale' items (ChangePlan.again seen items) := by
  induction h generalizing seen stale' with
  | done =>
    obtain rfl : stale' = [] := by
      rw [List.eq_nil_iff_forall_not_mem]
      intro d hd
      obtain ⟨f, hf, -⟩ := hleft.first d hd
      cases hf
    exact .done
  | comptime _ ih => exact .comptime (ih (hleft.tail fun _ heq => by cases heq))
  | test hselected _ ih => exact .test hselected (ih (hleft.tail fun _ heq => by cases heq))
  | @nameless stale f rest changes hname _ ih =>
    rw [ChangePlan.again, hname]
    refine .nameless hname (ih (hleft.tail fun g heq => ?_))
    cases heq
    exact hname
  | @add stale f symbol rest changes hname _ _ ih =>
    rw [ChangePlan.again, hname]
    by_cases hseen : symbol ∈ seen
    · obtain ⟨hnone, hrest⟩ := hleft.repeated hname hseen
      dsimp only
      rw [if_pos hseen]
      exact .add hname hnone (ih hrest)
    · obtain ⟨live, hlive, hbytes, hrest⟩ := hleft.named hname hseen
      dsimp only
      rw [if_neg hseen]
      exact .keep hname hlive hbytes (ih hrest)
  | @keep stale live f symbol rest changes hname _ _ _ ih =>
    rw [ChangePlan.again, hname]
    by_cases hseen : symbol ∈ seen
    · obtain ⟨hnone, hrest⟩ := hleft.repeated hname hseen
      dsimp only
      rw [if_pos hseen]
      exact .add hname hnone (ih hrest)
    · obtain ⟨live', hlive, hbytes, hrest⟩ := hleft.named hname hseen
      dsimp only
      rw [if_neg hseen]
      exact .keep hname hlive hbytes (ih hrest)

/-- What is done when a revision is seen again was also done the first time. -/
theorem Unblocked.again_sublist (h : Unblocked settings file stale items changes)
    (hseen : ∀ d ∈ stale, d.symbol ∉ seen) :
    (ChangePlan.again seen items).Sublist changes := by
  induction h generalizing seen with
  | done => exact List.Sublist.refl _
  | comptime _ ih => exact (ih hseen).cons_cons _
  | test _ _ ih => exact ih hseen
  | nameless hname _ ih =>
    rw [ChangePlan.again, hname]
    exact (ih hseen).cons_cons _
  | @add stale f symbol rest changes hname hnone _ ih =>
    rw [ChangePlan.again, hname]
    dsimp only
    split
    · exact (ih hseen).cons_cons _
    · refine (ih fun d hd => ?_).cons _
      rw [List.mem_cons, not_or]
      exact ⟨ne_of_find?_eq_none hnone hd, hseen d hd⟩
  | @keep stale live f symbol rest changes hname hlive _ _ ih =>
    have hnew : symbol ∉ seen := by
      have hsymbol : live.symbol = symbol := by simpa using List.find?_some hlive
      rw [← hsymbol]
      exact hseen live (List.mem_of_find?_eq_some hlive)
    rw [ChangePlan.again, hname]
    dsimp only
    rw [if_neg hnew]
    apply ih
    intro d hd
    obtain ⟨hd, hne⟩ := List.mem_filter.1 hd
    rw [List.mem_cons, not_or]
    exact ⟨by simpa using hne, hseen d hd⟩

end ChangePlan

namespace Change

variable {names : Interner} {file : SourceFile} {next : DeclId} {changes : List Change}

theorem exists_made (names : Interner) (file : SourceFile) (next : DeclId) {symbol : String}
    {f : FunctionItem} (h : .add symbol f ∈ changes) :
    ∃ d ∈ made names file next changes, d.content = (symbol, f, file) := by
  induction changes generalizing next with
  | nil => cases h
  | cons c changes ih =>
    cases c with
    | runComptime block =>
      apply ih
      simpa using h
    | reportNameless g =>
      apply ih
      simpa using h
    | add name g =>
      rcases List.mem_cons.1 h with heq | htail
      · cases heq
        exact ⟨_, List.mem_cons_self .., rfl⟩
      · obtain ⟨d, hd, hcontent⟩ := ih (next + 1) htail
        exact ⟨d, List.mem_cons_of_mem _ hd, hcontent⟩

/-- What is made and exported when a revision is seen again are its repeated exports. -/
theorem map_item_again (seen : List String) (items : List Item) :
    (exported (made names file next (ChangePlan.again seen items))).map (·.item) =
      repeatedExports seen (functionsOf items) := by
  induction items generalizing seen next with
  | nil => rfl
  | cons item items ih =>
    cases item with
    | comptime block => exact ih seen
    | «variable» v => exact ih seen
    | test t => exact ih seen
    | function f =>
      have hcons : functionsOf (.function f :: items) = f :: functionsOf items := rfl
      rw [hcons, ChangePlan.again, repeatedExports]
      cases f.name with
      | none => exact ih seen
      | some symbol =>
        dsimp only
        by_cases hseen : symbol ∈ seen
        · rw [if_pos hseen, if_pos hseen, made, exported_cons, List.map_append, ih]
          unfold Decl.isExport
          dsimp only
          split
          · rfl
          · rfl
        · rw [if_neg hseen, if_neg hseen]
          exact ih _

end Change

/-- Whether a declaration is found to be a function is settled by its content. -/
theorem Decl.calls_of_content {d d' : Decl} (h : d.content = d'.content) (analyzer : Analyzer) :
    (d.finding analyzer).calls ≠ [] ↔ (d'.finding analyzer).calls ≠ [] := by
  obtain ⟨id, name, symbol, item, file⟩ := d
  obtain ⟨id', name', symbol', item', file'⟩ := d'
  simp only [content, Prod.mk.injEq] at h
  obtain ⟨rfl, rfl, rfl⟩ := h
  unfold finding request
  dsimp only
  cases item.meaning? with
  | none => exact Iff.rfl
  | some signature =>
    dsimp only
    cases item.body with
    | none => exact Iff.rfl
    | some body =>
      dsimp only
      split
      · exact Iff.rfl
      · exact Iff.rfl
      · exact iff_of_true (List.cons_ne_nil _ _) (List.cons_ne_nil _ _)

end IncrementalBuild
