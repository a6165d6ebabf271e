import IncrementalBuild.Proofs.Session.FirstCycle

/-!
# Where the problems of a cycle come from

A cycle that fails reports what was noted when its file was rebuilt and what its tasks report. If
the file could be read and has no syntax error, each problem is about an item of the revision: a
function without a name, a name that is taken, a symbol that is in use, a block that was rejected,
or what an exported declaration was found to be. A name or a symbol is kept by a declaration that
was there before the cycle, or by one of the revision.
-/

set_option autoImplicit false

namespace IncrementalBuild

variable {names : Interner} {file : SourceFile} {next reserved : Nat} {changes : List Change}
  {p : Diagnostic}

theorem DeclTable.mem_of_find? {t : DeclTable} {symbol : String} {d : Decl}
    (h : t.find? symbol = some d) : d ∈ t.decls ∧ d.symbol = symbol :=
  ⟨List.mem_of_find?_eq_some h, by simpa using List.find?_some h⟩

theorem ExportTable.symbol_of_find? {t : ExportTable} {symbol : String} {d : Decl}
    (h : t.find? symbol = some d) : d.symbol = symbol := by
  obtain ⟨e, he, rfl⟩ := Option.map_eq_some_iff.1 h
  simpa using List.find?_some he

/-- A declaration holds its symbol. -/
def ExportTable.Holds (t : ExportTable) (d : Decl) : Prop := t.find? d.symbol = some d

/-- Claiming a symbol makes nobody but the claimant hold one. -/
theorem ExportTable.holds_of_claim {t : ExportTable} {ticket : ClaimTicket} {d kept : Decl}
    (hbefore : t.Before ticket.number) (h : (t.claim ticket d).2.Holds kept) :
    t.Holds kept ∨ kept = d := by
  rw [Holds, find?_claim hbefore, Option.or_eq_some_iff] at h
  rcases h with hheld | ⟨-, hown⟩
  · exact .inl hheld
  · split at hown
    · exact .inr (Option.some.inj hown).symm
    · cases hown

/-- What a problem of a revision is about. `live` tells which declarations were there before, `held`
which ones held a symbol, and `made` are those of the revision. -/
inductive Change.Problem (analyzer : Analyzer) (file : SourceFile) (live held : Decl → Prop)
    (changes : List Change) (made : List Decl) : Diagnostic → Prop where
  | nameless {f : FunctionItem} : .reportNameless f ∈ changes →
      Problem analyzer file live held changes made (Workshop.namelessProblem file f)
  | redefined {d kept : Decl} : d ∈ made → kept.symbol = d.symbol → live kept ∨ kept ∈ made →
      Problem analyzer file live held changes made (Workshop.redefinitionProblem d kept)
  | rejected {block : Span} {code : ErrorCode} {message : String} :
      .runComptime block ∈ changes →
      analyzer (Workshop.comptimeRequest file block) = .rejected code message →
      Problem analyzer file live held changes made (Workshop.rejection file block code message)
  | found {d : Decl} {p : Diagnostic} : d ∈ made → p ∈ (d.finding analyzer).problems →
      Problem analyzer file live held changes made p
  | collides {d kept : Decl} : d ∈ made → kept.symbol = d.symbol → held kept ∨ kept ∈ made →
      Problem analyzer file live held changes made (Workshop.collisionProblem ⟨kept, d⟩)

namespace Change

variable {analyzer : Analyzer} {live live' held held' : Decl → Prop}

/-- A problem of some changes is one of more changes, whose own declarations may have come in
between. -/
theorem Problem.mono {changes' : List Change} {decls decls' : List Decl}
    (h : Problem analyzer file live held changes decls p) (hchanges : changes ⊆ changes')
    (hmade : decls ⊆ decls') (hlive : ∀ d, live d → live' d ∨ d ∈ decls')
    (hheld : ∀ d, held d → held' d ∨ d ∈ decls') :
    Problem analyzer file live' held' changes' decls' p := by
  cases h with
  | nameless hf => exact .nameless (hchanges hf)
  | redefined hd hsymbol hkept =>
    refine .redefined (hmade hd) hsymbol ?_
    rcases hkept with hkept | hkept
    · exact hlive _ hkept
    · exact .inr (hmade hkept)
  | rejected hblock hrejected => exact .rejected (hchanges hblock) hrejected
  | found hd hp => exact .found (hmade hd) hp
  | collides hd hsymbol hkept =>
    refine .collides (hmade hd) hsymbol ?_
    rcases hkept with hkept | hkept
    · exact hheld _ hkept
    · exact .inr (hmade hkept)

/-- A problem of the changes after the first one is a problem of all of them. -/
theorem Problem.later {c : Change} {decls decls' : List Decl}
    (h : Problem analyzer file live held changes decls p) (hmade : decls ⊆ decls') :
    Problem analyzer file live held (c :: changes) decls' p :=
  h.mono (List.subset_cons_self ..) hmade (fun _ => .inl) (fun _ => .inl)

/-- What is noted of a revision is about a function without a name, or a name that is taken. -/
theorem problem_of_mem_noted {t : DeclTable} (h : p ∈ noted names file t next changes) :
    Problem analyzer file (· ∈ t.decls) held changes (made names file next changes) p := by
  induction changes generalizing t next with
  | nil => cases h
  | cons c changes ih =>
    cases c with
    | runComptime block => exact (ih h).later (List.Subset.refl _)
    | reportNameless f =>
      rcases List.mem_cons.1 h with rfl | h
      · exact .nameless (List.mem_cons_self ..)
      · exact (ih h).later (List.Subset.refl _)
    | add symbol f =>
      rcases List.mem_append.1 h with hrefused | h
      · obtain ⟨kept, hkept, rfl⟩ := List.mem_map.1 hrefused
        obtain ⟨hlive, hsymbol⟩ := DeclTable.mem_of_find? (Option.mem_toList.1 hkept)
        exact .redefined (List.mem_cons_self ..) hsymbol (.inl hlive)
      · -- the function that was added may be the one that keeps a name
        apply (ih h).mono (List.subset_cons_self ..) (List.subset_cons_self ..)
        · intro d hd
          rcases DeclTable.mem_enter hd with hlive | rfl
          · exact .inl hlive
          · exact .inr (List.mem_cons_self ..)
        · exact fun _ => .inl

/-- What the tasks of a revision report is about a block, an exported declaration, or a symbol that
is in use. -/
theorem problem_of_mem_reportsOf {exports : ExportTable} (hlate : exports.Before reserved)
    (h : p ∈ BuildTask.reportsOf analyzer exports (tasks names file next reserved changes)) :
    Problem analyzer file live exports.Holds changes (made names file next changes) p := by
  induction changes generalizing exports next reserved with
  | nil => cases h
  | cons c changes ih =>
    cases c with
    | runComptime block =>
      rcases List.mem_append.1 h with hown | h
      · unfold BuildTask.reports at hown
        dsimp only at hown
        split at hown
        · rename_i code message hrejected
          rw [List.mem_singleton.1 hown]
          exact .rejected (List.mem_cons_self ..) hrejected
        · cases hown
      · exact (ih hlate h).later (List.Subset.refl _)
    | reportNameless f => exact (ih hlate h).later (List.Subset.refl _)
    | add symbol f =>
      let d : Decl := { id := next, name := names.nameOf symbol, symbol, item := f, file }
      have hown : d ∈ made names file next (.add symbol f :: changes) := List.mem_cons_self ..
      rw [tasks, Decl.tasks, Decl.reserves] at h
      by_cases hexport : d.isExport = true
      · rw [if_pos hexport, if_pos hexport] at h
        have hbefore : exports.Before (ClaimTicket.mk reserved).number := hlate
        rcases List.mem_append.1 h with hcollides | h
        · obtain ⟨c, hc, rfl⟩ := List.mem_map.1 hcollides
          rw [ExportTable.claim_eq hbefore, Option.mem_toList] at hc
          obtain ⟨kept, hkept, rfl⟩ := Option.map_eq_some_iff.1 hc
          have hsymbol := ExportTable.symbol_of_find? hkept
          refine .collides hown hsymbol (.inl ?_)
          rw [ExportTable.Holds, hsymbol]
          exact hkept
        · rcases List.mem_append.1 h with hfound | h
          · exact .found hown hfound
          · -- the function that was added may be the one that holds its symbol
            apply (ih (ExportTable.before_claim hbefore) h).mono (List.subset_cons_self ..)
              (List.subset_cons_self ..)
            · exact fun _ => .inl
            · intro kept hheld
              rcases ExportTable.holds_of_claim hbefore hheld with hheld | rfl
              · exact .inl hheld
              · exact .inr hown
      · rw [if_neg hexport, if_neg hexport] at h
        exact (ih hlate h).later (List.subset_cons_self ..)

end Change

namespace Workshop

variable {w : Workshop} {root text : String} {problems : List Diagnostic}

/-- A cycle that fails has rebuilt its file, and reports what was noted then and what its tasks
report. -/
theorem problems_of_fail (hs : w.session.Settled)
    (h : Rebuilt w.session names file changes problems (w.rebuild root))
    {reported : List Diagnostic} (hfail : (w.runCycle [root]).2.outcome = .fail reported) :
    (w.rebuild root).outcome = .done ∧ reported = problems ++
      BuildTask.reportsOf w.session.analyzer (w.rebuild root).state.session.exports
        (Change.tasks names file w.session.nextDecl w.session.exports.reserved changes) := by
  have hcompiled := compiled_of_rebuilt hs h
  unfold runCycle at hfail
  dsimp only at hfail
  rw [finish_event] at hfail
  cases hcompile : (w.compile [root]).2 with
  | error e =>
    rw [hcompile] at hfail
    cases hfail
  | ok n =>
    have herrors := (compile_ok_iff w root).1 ⟨n, hcompile⟩
    refine ⟨(hcompiled.errors.1 herrors).1, ?_⟩
    rw [hcompile] at hfail
    change outcome ((w.compile [root]).1.link _).1 (w.compile [root]).1.session.log =
      .fail reported at hfail
    rw [← h.spawned, ← compile_log hs h]
    cases hlink : ((w.compile [root]).1.link ((w.compile [root]).1.session.cycle + 1)).1 with
    | error e =>
      rw [hlink] at hfail
      cases hfail
    | ok u =>
      rw [hlink, outcome] at hfail
      split at hfail
      · cases hfail
      · cases hfail
        rfl

end Workshop

end IncrementalBuild
