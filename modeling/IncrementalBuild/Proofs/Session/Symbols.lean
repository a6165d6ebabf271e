import IncrementalBuild.Proofs.Session.Additions

/-!
# The names in a table and the symbols in use

A table gets the names that enter it, each once, and the symbols in use are those that
were claimed.
-/

set_option autoImplicit false

namespace IncrementalBuild

namespace DeclTable

variable {t : DeclTable} {d d' : Decl} {decls : List Decl}

theorem mem_enter (h : d ∈ (t.enter d').decls) : d ∈ t.decls ∨ d = d' := by
  unfold enter insert at h
  cases hfind : t.find? d'.symbol with
  | none => simpa [hfind] using h
  | some existing => exact .inl (by simpa [hfind] using h)

theorem mem_foldl_enter (h : d ∈ (decls.foldl enter t).decls) : d ∈ t.decls ∨ d ∈ decls := by
  induction decls generalizing t with
  | nil => exact .inl h
  | cons d' decls ih =>
    rcases ih h with hold | hnew
    · rcases mem_enter hold with hold | rfl
      · exact .inl hold
      · exact .inr (List.mem_cons_self ..)
    · exact .inr (List.mem_cons_of_mem _ hnew)

theorem nodup_enter (h : (t.decls.map (·.symbol)).Nodup) :
    ((t.enter d).decls.map (·.symbol)).Nodup := by
  rw [Workshop.symbols_enter]
  split
  · exact h
  · rename_i hnew
    exact h.append (List.nodup_singleton _) (List.disjoint_singleton.2 hnew)

theorem nodup_foldl_enter (h : (t.decls.map (·.symbol)).Nodup) :
    ((decls.foldl enter t).decls.map (·.symbol)).Nodup := by
  induction decls generalizing t with
  | nil => exact h
  | cons d decls ih => exact ih (nodup_enter h)

theorem mem_symbols_enter {symbol : String} :
    symbol ∈ (t.enter d).decls.map (·.symbol) ↔
      symbol ∈ t.decls.map (·.symbol) ∨ symbol = d.symbol := by
  rw [Workshop.symbols_enter]
  split
  · rename_i hold
    constructor
    · exact .inl
    · rintro (h | rfl)
      · exact h
      · exact hold
  · rw [List.mem_append, List.mem_singleton]

theorem mem_symbols_foldl_enter {symbol : String} :
    symbol ∈ (decls.foldl enter t).decls.map (·.symbol) ↔
      symbol ∈ t.decls.map (·.symbol) ∨ symbol ∈ decls.map (·.symbol) := by
  induction decls generalizing t with
  | nil => simp
  | cons d decls ih =>
    rw [List.foldl_cons, ih, mem_symbols_enter, List.map_cons, List.mem_cons, or_assoc]

/-- Declarations whose names are free all enter. -/
theorem decls_foldl_enter (h : (t.decls.map (·.symbol) ++ decls.map (·.symbol)).Nodup) :
    (decls.foldl enter t).decls = t.decls ++ decls := by
  induction decls generalizing t with
  | nil => exact (List.append_nil _).symm
  | cons d decls ih =>
    rw [List.map_cons, List.append_cons] at h
    have hnew : d.symbol ∉ t.decls.map (·.symbol) := by
      have hnodup := h.sublist (List.sublist_append_left _ _)
      exact List.disjoint_singleton.1 (List.disjoint_of_nodup_append hnodup)
    have henter : (t.enter d).decls = t.decls ++ [d] := by
      unfold enter insert
      rw [find?_eq_none.2 hnew]
    rw [List.foldl_cons, ih, henter, List.append_assoc, List.singleton_append]
    rw [henter, List.map_append, List.map_singleton]
    exact h

end DeclTable

namespace ExportTable

/-- The symbols in use, oldest first. -/
def inUse (t : ExportTable) : List String := t.entries.map (·.decl.symbol)

theorem mem_inUse_claim {t : ExportTable} {ticket : ClaimTicket} {d : Decl} {symbol : String}
    (h : symbol ∈ (t.claim ticket d).2.inUse) : symbol ∈ t.inUse ∨ symbol = d.symbol := by
  unfold claim at h
  split at h
  · simpa [inUse, or_comm, eq_comm] using h
  · split at h
    · exact .inl h
    · obtain ⟨e, he, rfl⟩ := List.mem_map.1 h
      obtain ⟨old, hold, rfl⟩ := List.mem_map.1 he
      split
      · exact .inr rfl
      · exact .inl (List.mem_map_of_mem hold)

/-- Only claims bring symbols into use. -/
theorem mem_inUse_foldl {tasks : List BuildTask} {t : ExportTable} {symbol : String}
    (h : symbol ∈ (tasks.foldl BuildTask.exportsAfter t).inUse) :
    symbol ∈ t.inUse ∨ symbol ∈ (tasks.filterMap BuildTask.claims?).map (·.symbol) := by
  induction tasks generalizing t with
  | nil => exact .inl h
  | cons task tasks ih =>
    rw [List.filterMap_cons]
    cases task with
    | claim ticket d =>
      dsimp only [BuildTask.claims?]
      rw [List.map_cons, List.mem_cons]
      rcases ih h with hold | hnew
      · rcases mem_inUse_claim hold with hold | hown
        · exact .inl hold
        · exact .inr (.inl hown)
      · exact .inr (.inr hnew)
    | _ => exact ih h

end ExportTable

end IncrementalBuild
