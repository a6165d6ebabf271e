import IncrementalBuild.Decl.Exports
import Mathlib.Data.List.Count
import Mathlib.Data.List.Nodup
import Mathlib.Data.List.Perm.Basic

/-!
# Claims in any order

Claims on symbols are made by tasks that may run in any order. Whatever the order, the claim with
the smallest ticket on a symbol holds it in the end. A claim that clashes with another may win
at first and be displaced later, so which call rejects a claim depends on the order; but of the
claims that are made each is either rejected, once, or stands in the table. From this the rest
follows: the claims rejected and the entries of the table are together the claims that were made.
-/

set_option autoImplicit false

namespace IncrementalBuild

attribute [ext] ClaimTicket

/-- Two claims on one symbol that met, and which of them gave way. -/
structure Clash where
  kept : ExportEntry
  rejected : ExportEntry

/-- How a clash is reported. -/
def Clash.collision (x : Clash) : ExportCollision := ⟨x.kept.decl, x.rejected.decl⟩

/-- Of some claims one leads: it is made, and none on its symbol has a smaller ticket. -/
structure ExportEntry.Leads (c : ExportEntry) (claims : List ExportEntry) : Prop where
  mem : c ∈ claims
  least : ∀ c' ∈ claims, c'.decl.symbol = c.decl.symbol → c.ticket.number ≤ c'.ticket.number

/-- Who leads does not depend on the order. -/
theorem ExportEntry.leads_iff_of_perm {c : ExportEntry} {order claims : List ExportEntry}
    (horder : order.Perm claims) : c.Leads order ↔ c.Leads claims :=
  ⟨fun h => ⟨horder.mem_iff.1 h.mem, fun c' hc' => h.least c' (horder.mem_iff.2 hc')⟩,
    fun h => ⟨horder.mem_iff.2 h.mem, fun c' hc' => h.least c' (horder.mem_iff.1 hc')⟩⟩

namespace ExportTable

variable {t : ExportTable} {c : ExportEntry} {claims order order' : List ExportEntry}

/-- The clash of a claim with the entry that holds its symbol, if there is one. -/
def clash? (t : ExportTable) (c : ExportEntry) : Option Clash :=
  (t.entry? c.decl.symbol).map fun held =>
    if held.ticket.number < c.ticket.number then ⟨held, c⟩ else ⟨c, held⟩

/-- The table after claims were made, one after the other. -/
def claimAll (t : ExportTable) (claims : List ExportEntry) : ExportTable :=
  claims.foldl (fun t c => (t.claim c.ticket c.decl).2) t

/-- What claims that are made one after the other return. -/
def answers : ExportTable → List ExportEntry → List (Option ExportCollision)
  | _, [] => []
  | t, c :: rest => (t.claim c.ticket c.decl).1 :: answers (t.claim c.ticket c.decl).2 rest

/-- The claims that return success. -/
def granted (t : ExportTable) (claims : List ExportEntry) : List ExportEntry :=
  ((claims.zip (t.answers claims)).filter (·.2.isNone)).map (·.1)

/-- The collisions that are reported, in order. -/
def reported (t : ExportTable) (claims : List ExportEntry) : List ExportCollision :=
  (t.answers claims).filterMap id

/-- The clashes of claims that are made one after the other. -/
def clashes : ExportTable → List ExportEntry → List Clash
  | _, [] => []
  | t, c :: rest => (t.clash? c).toList ++ clashes (t.claim c.ticket c.decl).2 rest

/-! ## One claim -/

/-- A claim finds its symbol free, or held with a smaller ticket, or displaces the holder. -/
theorem claim_cases (t : ExportTable) (c : ExportEntry) :
    (c.decl.symbol ∉ t.entries.map (·.decl.symbol) ∧ t.clash? c = none ∧
      t.claim c.ticket c.decl = (none, { t with entries := t.entries ++ [c] })) ∨
    ∃ held ∈ t.entries, held.decl.symbol = c.decl.symbol ∧
      ((held.ticket.number < c.ticket.number ∧ t.clash? c = some ⟨held, c⟩ ∧
          t.claim c.ticket c.decl = (some ⟨held.decl, c.decl⟩, t)) ∨
        (c.ticket.number ≤ held.ticket.number ∧ t.clash? c = some ⟨c, held⟩ ∧
          t.claim c.ticket c.decl = (some ⟨c.decl, held.decl⟩, t.replace c))) := by
  unfold clash? claim
  cases hentry : t.entry? c.decl.symbol with
  | none =>
    left
    refine ⟨?_, rfl, rfl⟩
    simpa [ entry?] using hentry
  | some held =>
    right
    refine ⟨held, List.mem_of_find?_eq_some hentry, by simpa using List.find?_some hentry, ?_⟩
    by_cases hlate : held.ticket.number < c.ticket.number
    · exact .inl ⟨hlate, by simp [hlate], by simp [hlate]⟩
    · exact .inr ⟨Nat.le_of_not_lt hlate, by simp [hlate], by simp [hlate]⟩

theorem map_symbol_replace (t : ExportTable) (c : ExportEntry) :
    (t.replace c).entries.map (·.decl.symbol) = t.entries.map (·.decl.symbol) := by
  unfold replace
  dsimp only
  rw [List.map_map]
  refine List.map_congr_left fun e _ => ?_
  dsimp only [Function.comp_apply]
  split
  · rename_i hsymbol
    exact (beq_iff_eq.1 hsymbol).symm
  · rfl

/-- Displacing a holder exchanges one entry for another. -/
theorem perm_replace (hnodup : (t.entries.map (·.decl.symbol)).Nodup) {held : ExportEntry}
    (hheld : held ∈ t.entries) (hsymbol : held.decl.symbol = c.decl.symbol) :
    (held :: (t.replace c).entries).Perm (t.entries ++ [c]) := by
  obtain ⟨before, after, hentries⟩ := List.append_of_mem hheld
  have hothers : ∀ e ∈ before ++ after, (e.decl.symbol == c.decl.symbol) = false := by
    intro e he
    rw [beq_eq_false_iff_ne, ← hsymbol]
    rw [hentries, List.map_append, List.map_cons, List.nodup_middle, ← List.map_append,
      List.nodup_cons] at hnodup
    intro heq
    exact hnodup.1 (heq ▸ List.mem_map_of_mem he)
  have hsame {l : List ExportEntry} (hl : ∀ e ∈ l, e ∈ before ++ after) :
      l.map (fun old => if old.decl.symbol == c.decl.symbol then c else old) = l := by
    refine (List.map_congr_left fun e he => ?_).trans (List.map_id l)
    rw [hothers e (hl e he)]
    rfl
  have hreplace : (t.replace c).entries = before ++ c :: after := by
    unfold replace
    dsimp only
    rw [hentries, List.map_append, List.map_cons,
      hsame fun e he => List.mem_append_left _ he, hsame fun e he => List.mem_append_right _ he,
      if_pos (beq_iff_eq.2 hsymbol)]
  rw [hreplace, hentries]
  refine (List.Perm.cons held List.perm_middle).trans ((List.Perm.swap ..).trans ?_)
  exact (List.Perm.cons c List.perm_middle.symm).trans (List.perm_append_singleton ..).symm

/-- A claim adds itself to the entries of a table, less the claim it makes give way. -/
theorem perm_claim (hnodup : (t.entries.map (·.decl.symbol)).Nodup) (c : ExportEntry) :
    ((t.clash? c).toList.map (·.rejected) ++ (t.claim c.ticket c.decl).2.entries).Perm
      (t.entries ++ [c]) := by
  rcases claim_cases t c with ⟨-, hclash, hclaim⟩ | ⟨held, hheld, hsymbol,
    ⟨-, hclash, hclaim⟩ | ⟨-, hclash, hclaim⟩⟩
  · rw [hclash, hclaim]
    exact List.Perm.refl _
  · rw [hclash, hclaim]
    exact (List.perm_append_singleton ..).symm
  · rw [hclash, hclaim]
    exact perm_replace hnodup hheld hsymbol

/-- A claim that returns success brings its symbol into use, and no other claim does. -/
theorem map_symbol_claim (t : ExportTable) (c : ExportEntry) :
    (t.claim c.ticket c.decl).2.entries.map (·.decl.symbol) = t.entries.map (·.decl.symbol) ++
      if (t.claim c.ticket c.decl).1.isNone then [c.decl.symbol] else [] := by
  rcases claim_cases t c with ⟨-, -, hclaim⟩ | ⟨held, -, -, ⟨-, -, hclaim⟩ | ⟨-, -, hclaim⟩⟩
  · rw [hclaim]
    exact List.map_append
  · rw [hclaim]
    exact (List.append_nil _).symm
  · rw [hclaim]
    exact (map_symbol_replace t c).trans (List.append_nil _).symm

theorem nodup_symbol_claim (hnodup : (t.entries.map (·.decl.symbol)).Nodup) (c : ExportEntry) :
    ((t.claim c.ticket c.decl).2.entries.map (·.decl.symbol)).Nodup := by
  rcases claim_cases t c with ⟨hfree, -, hclaim⟩ | ⟨held, -, -, ⟨-, -, hclaim⟩ | ⟨-, -, hclaim⟩⟩
  · rw [hclaim]
    dsimp only
    rw [List.map_append, List.map_singleton]
    exact hnodup.append (List.nodup_singleton _) (List.disjoint_singleton.2 hfree)
  · rwa [hclaim]
  · rw [hclaim]
    exact (map_symbol_replace t c).symm ▸ hnodup

/-- An entry that a claim makes give way, or that stays, has an entry at least as early for it. -/
theorem exists_entry_claim (hnodup : (t.entries.map (·.decl.symbol)).Nodup) (c : ExportEntry) :
    ∀ e ∈ t.entries ++ [c], ∃ held ∈ (t.claim c.ticket c.decl).2.entries,
      held.decl.symbol = e.decl.symbol ∧ held.ticket.number ≤ e.ticket.number := by
  intro e he
  have hmem := (perm_claim hnodup c).mem_iff.2 he
  rcases claim_cases t c with ⟨-, hclash, hclaim⟩ | ⟨held, hheld, hsymbol,
    ⟨hlate, hclash, hclaim⟩ | ⟨hearly, hclash, hclaim⟩⟩
  · rw [hclash] at hmem
    exact ⟨e, hmem, rfl, Nat.le_refl _⟩
  · rw [hclash, hclaim] at hmem
    rw [hclaim]
    rcases List.mem_cons.1 hmem with rfl | hstays
    · exact ⟨held, hheld, hsymbol, Nat.le_of_lt hlate⟩
    · exact ⟨e, hstays, rfl, Nat.le_refl _⟩
  · rw [hclash, hclaim] at hmem
    rw [hclaim]
    rcases List.mem_cons.1 hmem with rfl | hstays
    · refine ⟨c, List.mem_map.2 ⟨_, hheld, if_pos (beq_iff_eq.2 hsymbol)⟩, hsymbol.symm, hearly⟩
    · exact ⟨e, hstays, rfl, Nat.le_refl _⟩

/-- In a clash the one with the smaller ticket is kept, and the new claim has a part in it. -/
theorem clash_of_mem {x : Clash} (hx : x ∈ (t.clash? c).toList) :
    x.kept.decl.symbol = x.rejected.decl.symbol ∧
      x.kept.ticket.number ≤ x.rejected.ticket.number ∧
      ∃ held ∈ t.entries, (x.kept = held ∧ x.rejected = c) ∨ (x.kept = c ∧ x.rejected = held) := by
  rcases claim_cases t c with ⟨-, hclash, -⟩ | ⟨held, hheld, hsymbol,
    ⟨hlate, hclash, -⟩ | ⟨hearly, hclash, -⟩⟩
  · rw [hclash] at hx
    cases hx
  · rw [hclash, Option.toList_some, List.mem_singleton] at hx
    subst hx
    exact ⟨hsymbol, Nat.le_of_lt hlate, held, hheld, .inl ⟨rfl, rfl⟩⟩
  · rw [hclash, Option.toList_some, List.mem_singleton] at hx
    subst hx
    exact ⟨hsymbol.symm, hearly, held, hheld, .inr ⟨rfl, rfl⟩⟩

/-! ## Claims made one after the other -/

/-- The claims that are rejected and the entries that stand are together the claims made. -/
theorem perm_claimAll (hnodup : (t.entries.map (·.decl.symbol)).Nodup) (claims : List ExportEntry) :
    ((t.clashes claims).map (·.rejected) ++ (t.claimAll claims).entries).Perm
      (t.entries ++ claims) := by
  induction claims generalizing t with
  | nil => exact (List.append_nil _).symm ▸ List.Perm.refl _
  | cons c rest ih =>
    have hrest := ih (nodup_symbol_claim hnodup c)
    have hfirst := (perm_claim hnodup c).append_right rest
    rw [List.append_assoc, List.append_assoc, List.singleton_append] at hfirst
    rw [clashes, List.map_append, List.append_assoc]
    exact (hrest.append_left _).trans hfirst

/-- The symbols in use are those that were and those of the claims that return success. -/
theorem map_symbol_claimAll (t : ExportTable) (claims : List ExportEntry) :
    (t.claimAll claims).entries.map (·.decl.symbol) =
      t.entries.map (·.decl.symbol) ++ (t.granted claims).map (·.decl.symbol) := by
  induction claims generalizing t with
  | nil => exact (List.append_nil _).symm
  | cons c rest ih =>
    have hgranted : t.granted (c :: rest) =
        (if (t.claim c.ticket c.decl).1.isNone then [c] else []) ++
          (t.claim c.ticket c.decl).2.granted rest := by
      unfold granted
      rw [answers, List.zip_cons_cons, List.filter_cons]
      split <;> rfl
    show (claimAll _ rest).entries.map (·.decl.symbol) = _
    rw [ih, map_symbol_claim, hgranted, List.map_append, List.append_assoc]
    split <;> rfl

theorem nodup_symbol_claimAll (hnodup : (t.entries.map (·.decl.symbol)).Nodup)
    (claims : List ExportEntry) : ((t.claimAll claims).entries.map (·.decl.symbol)).Nodup := by
  induction claims generalizing t with
  | nil => exact hnodup
  | cons c rest ih => exact ih (nodup_symbol_claim hnodup c)

/-- For each claim made there is an entry on its symbol with a ticket no greater. -/
theorem exists_entry_claimAll (hnodup : (t.entries.map (·.decl.symbol)).Nodup)
    (claims : List ExportEntry) :
    ∀ e ∈ t.entries ++ claims, ∃ held ∈ (t.claimAll claims).entries,
      held.decl.symbol = e.decl.symbol ∧ held.ticket.number ≤ e.ticket.number := by
  induction claims generalizing t with
  | nil => exact fun e he => ⟨e, List.append_nil t.entries ▸ he, rfl, Nat.le_refl _⟩
  | cons c rest ih =>
    intro e he
    have hrest := ih (nodup_symbol_claim hnodup c)
    rw [← List.singleton_append, ← List.append_assoc, List.mem_append] at he
    rcases he with he | he
    · obtain ⟨e', he', hsymbol', hticket'⟩ := exists_entry_claim hnodup c e he
      obtain ⟨held, hheld, hsymbol, hticket⟩ := hrest e' (List.mem_append_left _ he')
      exact ⟨held, hheld, hsymbol.trans hsymbol', Nat.le_trans hticket hticket'⟩
    · exact hrest e (List.mem_append_right _ he)

/-- A clash is that of one of the claims with what the claims before it left. -/
theorem mem_clashes {x : Clash} : x ∈ t.clashes claims ↔
    ∃ earlier c later, claims = earlier ++ c :: later ∧ (t.claimAll earlier).clash? c = some x := by
  induction claims generalizing t with
  | nil => simp [clashes]
  | cons c rest ih =>
    rw [clashes, List.mem_append, Option.mem_toList, ih]
    constructor
    · rintro (hx | ⟨earlier, c', later, rfl, hx⟩)
      · exact ⟨[], c, rest, rfl, hx⟩
      · exact ⟨c :: earlier, c', later, rfl, hx⟩
    · rintro ⟨earlier, c', later, hclaims, hx⟩
      cases earlier with
      | nil =>
        cases hclaims
        exact .inl hx
      | cons _ earlier =>
        cases hclaims
        exact .inr ⟨earlier, c', later, rfl, hx⟩

/-- In each clash of claims with distinct tickets the one with the smaller ticket is kept. -/
theorem clash_of_mem_clashes (hnodup : (t.entries.map (·.decl.symbol)).Nodup)
    (htickets : ((t.entries ++ claims).map (·.ticket)).Nodup) {x : Clash}
    (hx : x ∈ t.clashes claims) :
    x.kept ∈ t.entries ++ claims ∧ x.rejected ∈ t.entries ++ claims ∧
      x.kept.decl.symbol = x.rejected.decl.symbol ∧
      x.kept.ticket.number < x.rejected.ticket.number := by
  obtain ⟨earlier, c, later, rfl, hclash⟩ := mem_clashes.1 hx
  obtain ⟨hsymbol, hticket, held, hheld, hparts⟩ := clash_of_mem (by rw [hclash]; exact .head _)
  have hbefore : held ∈ t.entries ++ earlier :=
    (perm_claimAll hnodup earlier).mem_iff.1 (List.mem_append_right _ hheld)
  rw [← List.append_assoc] at htickets ⊢
  have hdistinct : held.ticket ≠ c.ticket := by
    rw [List.map_append, List.map_cons] at htickets
    have hapart := List.disjoint_of_nodup_append htickets
    exact fun h => hapart (List.mem_map_of_mem hbefore) (h ▸ .head _)
  have hheld' : held ∈ (t.entries ++ earlier) ++ c :: later := List.mem_append_left _ hbefore
  have hc : c ∈ (t.entries ++ earlier) ++ c :: later := List.mem_append_right _ (.head _)
  obtain ⟨kept, rejected⟩ := x
  dsimp only at hparts hsymbol hticket ⊢
  obtain ⟨rfl, rfl⟩ | ⟨rfl, rfl⟩ := hparts
  · exact ⟨hheld', hc, hsymbol, Nat.lt_of_le_of_ne hticket fun h => hdistinct (ClaimTicket.ext h)⟩
  · exact ⟨hc, hheld', hsymbol,
      Nat.lt_of_le_of_ne hticket fun h => hdistinct (ClaimTicket.ext h.symm)⟩

/-- What is reported is what clashed. -/
theorem reported_eq (t : ExportTable) (claims : List ExportEntry) :
    t.reported claims = (t.clashes claims).map Clash.collision := by
  induction claims generalizing t with
  | nil => rfl
  | cons c rest ih =>
    have hfirst : (t.claim c.ticket c.decl).1 = (t.clash? c).map Clash.collision := by
      rcases claim_cases t c with ⟨-, hclash, hclaim⟩ | ⟨held, -, -,
        ⟨-, hclash, hclaim⟩ | ⟨-, hclash, hclaim⟩⟩ <;> rw [hclash, hclaim] <;> rfl
    have hrest := ih (t.claim c.ticket c.decl).2
    unfold reported at hrest ⊢
    rw [answers, clashes, List.map_append, ← hrest, hfirst]
    cases t.clash? c <;> rfl

/-! ## Who holds a symbol in the end -/

theorem entry?_eq_some_iff (hnodup : (t.entries.map (·.decl.symbol)).Nodup) {symbol : String} :
    t.entry? symbol = some c ↔ c ∈ t.entries ∧ c.decl.symbol = symbol := by
  constructor
  · intro h
    exact ⟨List.mem_of_find?_eq_some h, by simpa using List.find?_some h⟩
  · rintro ⟨hc, rfl⟩
    cases hentry : t.entry? c.decl.symbol with
    | none =>
      have := List.find?_eq_none.1 hentry c hc
      simp at this
    | some held =>
      have hheld : held ∈ t.entries := List.mem_of_find?_eq_some hentry
      have hsymbol : held.decl.symbol = c.decl.symbol := by simpa using List.find?_some hentry
      rw [List.inj_on_of_nodup_map hnodup hheld hc hsymbol]

/-- In a table that was empty the claims with the smallest tickets stand. -/
theorem mem_claimAll_iff (hempty : t.entries = [])
    (htickets : (claims.map (·.ticket)).Nodup) :
    c ∈ (t.claimAll claims).entries ↔ c.Leads claims := by
  have hnodup : (t.entries.map (·.decl.symbol)).Nodup := hempty ▸ List.nodup_nil
  have hsymbols := nodup_symbol_claimAll hnodup claims
  have hmade : ∀ e ∈ (t.claimAll claims).entries, e ∈ claims := fun e he => by
    have := (perm_claimAll hnodup claims).mem_iff.1 (List.mem_append_right _ he)
    rwa [hempty] at this
  have hexists := exists_entry_claimAll hnodup claims
  rw [hempty, List.nil_append] at hexists
  constructor
  · intro hc
    refine ⟨hmade c hc, fun c' hc' hsymbol => ?_⟩
    obtain ⟨held, hheld, hsymbol', hticket⟩ := hexists c' hc'
    rwa [List.inj_on_of_nodup_map hsymbols hheld hc (hsymbol'.trans hsymbol)] at hticket
  · intro hleads
    obtain ⟨held, hheld, hsymbol, hticket⟩ := hexists c hleads.mem
    have hsame : held.ticket = c.ticket :=
      ClaimTicket.ext (Nat.le_antisymm hticket (hleads.least held (hmade held hheld) hsymbol))
    rwa [List.inj_on_of_nodup_map htickets (hmade held hheld) hleads.mem hsame] at hheld

/-- The claims that are rejected are those that do not lead, each of them once. -/
theorem perm_rejected (hempty : t.entries = []) (claims : List ExportEntry) :
    ((t.clashes claims).map (·.rejected) ++ (t.claimAll claims).entries).Perm claims := by
  have hperm := perm_claimAll (t := t) (hempty ▸ List.nodup_nil) claims
  rwa [hempty, List.nil_append] at hperm

/-- A claim that leads is rejected in no clash, and any other in one. -/
theorem count_rejected (hempty : t.entries = []) (htickets : (claims.map (·.ticket)).Nodup) :
    (c.Leads claims → ((t.clashes claims).map (·.rejected.ticket)).count c.ticket = 0) ∧
    (c ∈ claims → ¬ c.Leads claims →
      ((t.clashes claims).map (·.rejected.ticket)).count c.ticket = 1) := by
  have hperm := perm_rejected hempty claims
  have hnodup := ((hperm.map (·.ticket)).nodup_iff).2 htickets
  rw [List.map_append, List.map_map] at hnodup
  constructor
  · intro hleads
    have hstands := List.mem_map_of_mem (f := (·.ticket))
      ((mem_claimAll_iff hempty htickets).2 hleads)
    exact List.count_eq_zero_of_not_mem fun h => List.disjoint_of_nodup_append hnodup h hstands
  · intro hc hnot
    rcases List.mem_append.1 (hperm.mem_iff.2 hc) with hrejected | hstands
    · obtain ⟨x, hx, rfl⟩ := List.mem_map.1 hrejected
      exact List.count_eq_one_of_mem hnodup.of_append_left (List.mem_map_of_mem hx)
    · exact absurd ((mem_claimAll_iff hempty htickets).1 hstands) hnot

/-- Whatever the order of claims with distinct tickets on an empty table, each symbol claimed goes
to the smallest ticket on it. One claim on the symbol returns success; each claim that does not get
its symbol is rejected in one reported collision, by a claim with a smaller ticket, and the one
that gets it in none. -/
theorem symbols_go_to_the_smallest_tickets (t : ExportTable) (hempty : t.entries = [])
    (claims order : List ExportEntry) (htickets : (claims.map (·.ticket)).Nodup)
    (horder : order.Perm claims) :
    (∀ symbol c, entry? (t.claimAll order) symbol = some c ↔
      c.decl.symbol = symbol ∧ c.Leads claims) ∧
    (∀ symbol, symbol ∈ (t.claimAll order).symbols ↔ ∃ c ∈ claims, c.decl.symbol = symbol) ∧
    (∀ c ∈ claims, ((t.granted order).map (·.decl.symbol)).count c.decl.symbol = 1) ∧
    t.reported order = (t.clashes order).map Clash.collision ∧
    (∀ c : ExportEntry, c.Leads claims →
      ((t.clashes order).map (·.rejected.ticket)).count c.ticket = 0) ∧
    (∀ c ∈ claims, ¬ c.Leads claims →
      ((t.clashes order).map (·.rejected.ticket)).count c.ticket = 1) ∧
    ∀ x ∈ t.clashes order, x.kept ∈ claims ∧ x.rejected ∈ claims ∧
      x.kept.decl.symbol = x.rejected.decl.symbol ∧
      x.kept.ticket.number < x.rejected.ticket.number := by
  have hnodup : (t.entries.map (·.decl.symbol)).Nodup := hempty ▸ List.nodup_nil
  have hticketsOrder : (order.map (·.ticket)).Nodup := ((horder.map _).nodup_iff).2 htickets
  have hsymbols := nodup_symbol_claimAll hnodup order
  have hstands (c : ExportEntry) : c ∈ (t.claimAll order).entries ↔ c.Leads claims :=
    (mem_claimAll_iff hempty hticketsOrder).trans (ExportEntry.leads_iff_of_perm horder)
  have hused (symbol : String) : symbol ∈ (t.claimAll order).entries.map (·.decl.symbol) ↔
      ∃ c ∈ claims, c.decl.symbol = symbol := by
    constructor
    · intro h
      obtain ⟨c, hc, rfl⟩ := List.mem_map.1 h
      exact ⟨c, ((hstands c).1 hc).mem, rfl⟩
    · rintro ⟨c, hc, rfl⟩
      have hmade : c ∈ t.entries ++ order := List.mem_append_right _ (horder.mem_iff.2 hc)
      obtain ⟨held, hheld, hsymbol, -⟩ := exists_entry_claimAll hnodup order c hmade
      exact hsymbol ▸ List.mem_map_of_mem hheld
  refine ⟨fun symbol c => ?_, fun symbol => ?_, fun c hc => ?_, reported_eq t order,
    fun c hc => ?_, fun c hc hnot => ?_, fun x hx => ?_⟩
  · rw [entry?_eq_some_iff hsymbols, hstands, and_comm]
  · exact ((List.mergeSort_perm _ _).mem_iff).trans (hused symbol)
  · have hgranted := map_symbol_claimAll t order
    rw [hempty, List.map_nil, List.nil_append] at hgranted
    rw [← hgranted]
    exact List.count_eq_one_of_mem hsymbols ((hused _).2 ⟨c, hc, rfl⟩)
  · exact (count_rejected hempty hticketsOrder).1 ((ExportEntry.leads_iff_of_perm horder).2 hc)
  · exact (count_rejected hempty hticketsOrder).2 (horder.mem_iff.2 hc)
      fun h => hnot ((ExportEntry.leads_iff_of_perm horder).1 h)
  · have hx' := clash_of_mem_clashes hnodup (by rwa [hempty, List.nil_append]) hx
    rwa [hempty, List.nil_append, horder.mem_iff, horder.mem_iff] at hx'

/-- The claim of the function `symbol` that is exported on the line `n`, with the ticket `n`. -/
def lineClaim (symbol : String) (n : Nat) : ExportEntry :=
  { ticket := ⟨n⟩
    decl :=
      { id := n, name := default, symbol, file := default
        item := { (default : FunctionItem) with
          name := some symbol, isExport := true, span := ⟨22 * n, 22 * n + 21⟩ } } }

/-- Four claims, three of them on one symbol, made in the opposite order of their tickets. -/
theorem four_claims_from_the_last :
    let claims := [lineClaim "f" 0, lineClaim "f" 1, lineClaim "g" 2, lineClaim "f" 3]
    let table : ExportTable := {}
    table.entries = [] ∧ (claims.map (·.ticket)).Nodup ∧ claims.reverse.Perm claims ∧
    entry? (table.claimAll claims.reverse) "f" = some (lineClaim "f" 0) ∧
    ((table.granted claims.reverse).map (·.decl.symbol)).count "f" = 1 ∧
    ((table.clashes claims.reverse).map (·.rejected.ticket)).count ⟨0⟩ = 0 ∧
    ((table.clashes claims.reverse).map (·.rejected.ticket)).count ⟨1⟩ = 1 := by
  intro claims table
  have hempty : table.entries = [] := rfl
  have htickets : (claims.map (·.ticket)).Nodup := by decide
  have hleads : (lineClaim "f" 0).Leads claims := ⟨.head _, fun _ _ _ => Nat.zero_le _⟩
  have hfollows : ¬ (lineClaim "f" 1).Leads claims := fun h =>
    absurd (h.least _ (.head _) rfl) (by decide)
  obtain ⟨hheld, -, hgranted, -, hfirst, hothers, -⟩ := symbols_go_to_the_smallest_tickets table
    hempty claims claims.reverse htickets claims.reverse_perm
  exact ⟨hempty, htickets, claims.reverse_perm, (hheld "f" _).2 ⟨rfl, hleads⟩,
    hgranted _ (.head _), hfirst _ hleads, hothers _ (.tail _ (.head _)) hfollows⟩

end ExportTable

end IncrementalBuild
