import IncrementalBuild.Proofs.Decl.Claims

/-!
# What collisions name

A collision is reported when it happens, and the claim it names as kept may itself be displaced
by a later one. Which claims are rejected does not depend on the order of the claims, but by whom
they are said to be rejected does: every collision names the claim that gets the symbol in the
end exactly if, on each symbol, that claim is the first or the second to be made. Only then are the
reports the same in every order.
-/

set_option autoImplicit false

namespace IncrementalBuild

/-- The claim with the smallest ticket on each symbol is one of the first two made on it. -/
def Timely (order : List ExportEntry) : Prop :=
  ∀ c : ExportEntry, c.Leads order → c ∈ (order.filter (·.decl.symbol == c.decl.symbol)).take 2

/-- Of claims with distinct tickets on one symbol only one leads. -/
theorem ExportEntry.Leads.unique {c c' : ExportEntry} {claims : List ExportEntry}
    (htickets : (claims.map (·.ticket)).Nodup) (h : c.Leads claims) (h' : c'.Leads claims)
    (hsymbol : c'.decl.symbol = c.decl.symbol) : c' = c :=
  List.inj_on_of_nodup_map htickets h'.mem h.mem <| ClaimTicket.ext <|
    Nat.le_antisymm (h'.least c h.mem hsymbol.symm) (h.least c' h'.mem hsymbol)

namespace ExportTable

variable {t : ExportTable} {order order' : List ExportEntry}

/-- What a clash keeps stands in the table right after it. -/
theorem kept_mem_claim {c : ExportEntry} {x : Clash} (hx : t.clash? c = some x) :
    x.kept ∈ (t.claim c.ticket c.decl).2.entries := by
  rcases claim_cases t c with ⟨-, hclash, -⟩ | ⟨held, hheld, hsymbol,
    ⟨-, hclash, hclaim⟩ | ⟨-, hclash, hclaim⟩⟩
  · rw [hclash] at hx
    cases hx
  · rw [hclash] at hx
    cases hx
    rw [hclaim]
    exact hheld
  · rw [hclash] at hx
    cases hx
    rw [hclaim]
    exact List.mem_map.2 ⟨held, hheld, if_pos (beq_iff_eq.2 hsymbol)⟩

theorem claimAll_append (t : ExportTable) (earlier later : List ExportEntry) :
    t.claimAll (earlier ++ later) = (t.claimAll earlier).claimAll later := List.foldl_append

/-- What a clash keeps leads the claims that were made so far. -/
theorem kept_leads (hempty : t.entries = []) {earlier later : List ExportEntry} {c : ExportEntry}
    (htickets : ((earlier ++ c :: later).map (·.ticket)).Nodup) {x : Clash}
    (hx : (t.claimAll earlier).clash? c = some x) : x.kept.Leads (earlier ++ [c]) := by
  have hkept := kept_mem_claim hx
  rw [List.append_cons, List.map_append] at htickets
  exact (mem_claimAll_iff hempty htickets.of_append_left).1 (claimAll_append t earlier [c] ▸ hkept)

/-- A claim clashes if there is an earlier one on its symbol. -/
theorem exists_clash (hempty : t.entries = []) {earlier : List ExportEntry} {c e : ExportEntry}
    (he : e ∈ earlier) (hsymbol : e.decl.symbol = c.decl.symbol) :
    ∃ x, (t.claimAll earlier).clash? c = some x ∧ x.kept.decl.symbol = c.decl.symbol := by
  obtain ⟨held, hheld, hsymbol', -⟩ := exists_entry_claimAll (t := t) (hempty ▸ List.nodup_nil)
    earlier e (List.mem_append_right _ he)
  rcases claim_cases (t.claimAll earlier) c with ⟨hfree, -, -⟩ | ⟨held', -, hsymbol'',
    ⟨-, hclash, -⟩ | ⟨-, hclash, -⟩⟩
  · exact absurd ((hsymbol'.trans hsymbol) ▸ List.mem_map_of_mem hheld) hfree
  · exact ⟨_, hclash, hsymbol''⟩
  · exact ⟨_, hclash, rfl⟩

/-- A claim clashes only if there is an earlier one on its symbol. -/
theorem exists_earlier_of_clash (hempty : t.entries = []) {earlier : List ExportEntry}
    {c : ExportEntry} {x : Clash} (hx : (t.claimAll earlier).clash? c = some x) :
    ∃ held ∈ earlier, held.decl.symbol = x.kept.decl.symbol ∧
      c.decl.symbol = x.kept.decl.symbol := by
  obtain ⟨hsymbols, -, held, hheld, hparts⟩ := clash_of_mem (by rw [hx]; exact .head _)
  have hearlier := (perm_rejected hempty earlier).mem_iff.1 (List.mem_append_right _ hheld)
  rcases hparts with ⟨hk, hr⟩ | ⟨hk, hr⟩
  · exact ⟨held, hearlier, by rw [hk], by rw [hsymbols, hr]⟩
  · exact ⟨held, hearlier, by rw [hsymbols, hr], by rw [hk]⟩

/-- The claims rejected are the same in every order. -/
theorem perm_map_rejected (hempty : t.entries = []) (htickets : (order.map (·.ticket)).Nodup)
    (horder : order'.Perm order) :
    ((t.clashes order').map (·.rejected)).Perm ((t.clashes order).map (·.rejected)) := by
  have htickets' : (order'.map (·.ticket)).Nodup := ((horder.map _).nodup_iff).2 htickets
  have hnodup : (t.entries.map (·.decl.symbol)).Nodup := hempty ▸ List.nodup_nil
  have hstand : (t.claimAll order').entries.Perm (t.claimAll order).entries := by
    refine (List.perm_ext_iff_of_nodup (nodup_symbol_claimAll hnodup _).of_map
      (nodup_symbol_claimAll hnodup _).of_map).2 fun c => ?_
    rw [mem_claimAll_iff hempty htickets', mem_claimAll_iff hempty htickets]
    exact ExportEntry.leads_iff_of_perm horder
  have hmade := (perm_rejected (t := t) hempty order').trans
    (horder.trans (perm_rejected hempty order).symm)
  exact (List.perm_append_right_iff _).1 (hmade.trans (hstand.symm.append_left _))

/-- A claim made after two others on its symbol that are early is too late to be kept by all. -/
theorem timely_of_kept_leads (hempty : t.entries = []) (htickets : (order.map (·.ticket)).Nodup)
    (hkept : ∀ x ∈ t.clashes order, x.kept.Leads order) : Timely order := by
  intro c hleads
  obtain ⟨before, after, rfl⟩ := List.append_of_mem hleads.mem
  have hlate : c ∉ before := fun h => by
    rw [List.map_append, List.map_cons, List.nodup_middle, List.nodup_cons] at htickets
    exact htickets.1 (List.mem_append_left _ (List.mem_map_of_mem h))
  have hfirst : (c :: after).filter (·.decl.symbol == c.decl.symbol) =
      c :: after.filter (·.decl.symbol == c.decl.symbol) :=
    List.filter_cons_of_pos (beq_self_eq_true c.decl.symbol)
  rw [List.filter_append, hfirst]
  rcases hfilter : before.filter (·.decl.symbol == c.decl.symbol) with _ | ⟨e, _ | ⟨d, rest⟩⟩
  · rw [hfilter]
    exact .head _
  · rw [hfilter]
    exact .tail _ (.head _)
  · -- Then `e` and `d` clash before `c` is made, and one of them is kept.
    obtain ⟨l₁, l₂, rfl, -, he, hfilter⟩ := List.filter_eq_cons_iff.1 hfilter
    obtain ⟨m₁, m₂, rfl, -, hd, -⟩ := List.filter_eq_cons_iff.1 hfilter
    rw [beq_iff_eq] at he hd
    obtain ⟨x, hclash, hsymbol⟩ := exists_clash (t := t) hempty (c := d)
      (List.mem_append_right l₁ (.head m₁)) (he.trans hd.symm)
    have horder : (l₁ ++ e :: (m₁ ++ d :: m₂)) ++ c :: after =
        (l₁ ++ e :: m₁) ++ d :: (m₂ ++ c :: after) := by
      simp only [List.append_assoc, List.cons_append]
    have hx : x.kept.Leads _ := hkept x (mem_clashes.2 ⟨_, d, _, horder, hclash⟩)
    have hmade := (kept_leads hempty (horder ▸ htickets) hclash).mem
    rw [hleads.unique htickets hx (hsymbol.trans hd)] at hmade
    refine absurd (?_ : c ∈ l₁ ++ e :: (m₁ ++ d :: m₂)) hlate
    simp only [List.mem_append, List.mem_cons, List.not_mem_nil, or_false] at hmade ⊢
    tauto

/-- If whoever leads is one of the first two, it has been made when the first clash happens. -/
theorem kept_leads_of_timely (hempty : t.entries = []) (htickets : (order.map (·.ticket)).Nodup)
    (htimely : Timely order) : ∀ x ∈ t.clashes order, x.kept.Leads order := by
  intro x hx
  obtain ⟨earlier, d, later, rfl, hclash⟩ := mem_clashes.1 hx
  have hnodup : (t.entries.map (·.decl.symbol)).Nodup := hempty ▸ List.nodup_nil
  obtain ⟨hkept, -⟩ := clash_of_mem_clashes hnodup (by rwa [hempty]) hx
  rw [hempty, List.nil_append] at hkept
  obtain ⟨first, hfirst, hsymbol, -⟩ := exists_entry_claimAll hnodup (earlier ++ d :: later)
    x.kept (List.mem_append_right _ hkept)
  have hleads : first.Leads (earlier ++ d :: later) := (mem_claimAll_iff hempty htickets).1 hfirst
  obtain ⟨held, hearlier, hheldSymbol, hdSymbol⟩ := exists_earlier_of_clash hempty hclash
  rw [← hsymbol] at hheldSymbol hdSymbol
  have htwo : 2 ≤ ((earlier ++ [d]).filter (·.decl.symbol == first.decl.symbol)).length := by
    have hpos {l : List ExportEntry} {e : ExportEntry} (he : e ∈ l)
        (h : e.decl.symbol = first.decl.symbol) :
        1 ≤ (l.filter (·.decl.symbol == first.decl.symbol)).length :=
      List.length_pos_of_mem (List.mem_filter.2 ⟨he, beq_iff_eq.2 h⟩)
    rw [List.filter_append, List.length_append]
    exact Nat.add_le_add (hpos hearlier hheldSymbol) (hpos (.head _) hdSymbol)
  have hmade : first ∈ earlier ++ [d] := by
    have := htimely first hleads
    rw [List.append_cons, List.filter_append, List.take_append_of_le_length htwo] at this
    exact (List.mem_filter.1 (List.mem_of_mem_take this)).1
  have hleads' : first.Leads (earlier ++ [d]) :=
    ⟨hmade, fun c' hc' => hleads.least c' (List.append_cons .. ▸ List.mem_append_left _ hc')⟩
  have htickets' := List.append_cons earlier d later ▸ htickets
  rw [List.map_append] at htickets'
  exact hleads'.unique htickets'.of_append_left (kept_leads hempty htickets hclash) hsymbol.symm ▸
    hleads

/-- A claim leads exactly if it holds its symbol in the end. -/
theorem leads_iff_holds (hempty : t.entries = []) (htickets : (order.map (·.ticket)).Nodup)
    {c : ExportEntry} :
    c.Leads order ↔ entry? (t.claimAll order) c.decl.symbol = some c := by
  have hnodup : (t.entries.map (·.decl.symbol)).Nodup := hempty ▸ List.nodup_nil
  rw [entry?_eq_some_iff (nodup_symbol_claimAll hnodup order), mem_claimAll_iff hempty htickets,
    and_iff_left rfl]

/-- If all that is kept leads, the clashes can be read off the claims rejected. -/
theorem map_clash_of_kept_leads (hempty : t.entries = []) (htickets : (order.map (·.ticket)).Nodup)
    (horder : order'.Perm order) (hkept : ∀ x ∈ t.clashes order', x.kept.Leads order) :
    ((t.clashes order').map (·.rejected)).map (fun r =>
      let holder := entry? (t.claimAll order) r.decl.symbol
      ⟨holder.getD r, r⟩) = t.clashes order' := by
  have hnodup : (t.entries.map (·.decl.symbol)).Nodup := hempty ▸ List.nodup_nil
  rw [List.map_map]
  refine (List.map_congr_left fun x hx => ?_).trans (List.map_id _)
  obtain ⟨-, -, hsymbol, -⟩ := clash_of_mem_clashes hnodup
    (by rw [hempty]; exact ((horder.map _).nodup_iff).2 htickets) hx
  have hentry := (leads_iff_holds hempty htickets).1 (hkept x hx)
  rw [hsymbol] at hentry
  rw [Function.comp_apply, hentry]
  rfl

/-- Where no symbol has more than two claims, every order is timely. -/
theorem timely_of_length_le (h : ∀ symbol, (order.filter (·.decl.symbol == symbol)).length ≤ 2) :
    Timely order := by
  intro c hc
  rw [List.take_of_length_le (h _)]
  exact List.mem_filter.2 ⟨hc.mem, beq_self_eq_true c.decl.symbol⟩

theorem perm_clashes_of_timely (hempty : t.entries = []) (htickets : (order.map (·.ticket)).Nodup)
    (horder : order'.Perm order) (htimely : Timely order) (htimely' : Timely order') :
    (t.clashes order').Perm (t.clashes order) := by
  have htickets' : (order'.map (·.ticket)).Nodup := ((horder.map _).nodup_iff).2 htickets
  have hkept := kept_leads_of_timely (t := t) hempty htickets htimely
  have hkept' (x : Clash) (hx : x ∈ t.clashes order') : x.kept.Leads order :=
    (ExportEntry.leads_iff_of_perm horder).1 (kept_leads_of_timely hempty htickets' htimely' x hx)
  rw [← map_clash_of_kept_leads hempty htickets horder hkept',
    ← map_clash_of_kept_leads hempty htickets (List.Perm.refl _) hkept]
  exact (perm_map_rejected hempty htickets horder).map _

/-- In every order the same claims are rejected. The claims that are said to have been kept are
those that hold their symbols in the end exactly if the order is timely, and an order gives the
clashes that a timely one gives exactly if it is timely too. Where no symbol is claimed more than
twice all orders are, so what is reported is the same in all of them. -/
theorem collisions_name_the_holder_iff_timely (t : ExportTable) (hempty : t.entries = [])
    (order order' : List ExportEntry) (htickets : (order.map (·.ticket)).Nodup)
    (horder : order'.Perm order) :
    t.reported order = (t.clashes order).map Clash.collision ∧
    ((t.clashes order').map (·.rejected)).Perm ((t.clashes order).map (·.rejected)) ∧
    ((∀ x ∈ t.clashes order, entry? (t.claimAll order) x.kept.decl.symbol = some x.kept) ↔
      Timely order) ∧
    (Timely order → ((t.clashes order').Perm (t.clashes order) ↔ Timely order')) ∧
    ((∀ symbol, (order.filter (·.decl.symbol == symbol)).length ≤ 2) →
      (t.reported order').Perm (t.reported order)) := by
  have htickets' : (order'.map (·.ticket)).Nodup := ((horder.map _).nodup_iff).2 htickets
  refine ⟨reported_eq t order, perm_map_rejected hempty htickets horder, ?_, fun htimely => ?_,
    fun htwo => ?_⟩
  · constructor
    · intro hheld
      exact timely_of_kept_leads hempty htickets fun x hx =>
        (leads_iff_holds hempty htickets).2 (hheld x hx)
    · intro htimely x hx
      exact (leads_iff_holds hempty htickets).1 (kept_leads_of_timely hempty htickets htimely x hx)
  · constructor
    · intro hperm
      refine timely_of_kept_leads hempty htickets' fun x hx => ?_
      exact (ExportEntry.leads_iff_of_perm horder).2
        (kept_leads_of_timely hempty htickets htimely x (hperm.mem_iff.1 hx))
    · exact perm_clashes_of_timely hempty htickets horder htimely
  · have htwo' (symbol : String) : (order'.filter (·.decl.symbol == symbol)).length ≤ 2 :=
      (horder.filter _).length_eq ▸ htwo symbol
    rw [reported_eq, reported_eq]
    exact (perm_clashes_of_timely hempty htickets horder (timely_of_length_le htwo)
      (timely_of_length_le htwo')).map _

/-- Three claims, the smallest ticket second: it has a part in both clashes, as if it were first. -/
theorem second_claim_is_in_time :
    let order := [lineClaim "f" 1, lineClaim "f" 0, lineClaim "f" 2]
    let order' := [lineClaim "f" 0, lineClaim "f" 1, lineClaim "f" 2]
    let table : ExportTable := {}
    table.entries = [] ∧ (order.map (·.ticket)).Nodup ∧ order'.Perm order ∧ Timely order ∧
    (∀ x ∈ table.clashes order, entry? (table.claimAll order) x.kept.decl.symbol = some x.kept) ∧
    ((table.clashes order').map (·.rejected)).Perm ((table.clashes order).map (·.rejected)) ∧
    ((table.clashes order').Perm (table.clashes order) ↔ Timely order') := by
  intro order order' table
  have htickets : (order.map (·.ticket)).Nodup := by decide
  have horder : order'.Perm order := List.Perm.swap ..
  have htimely : Timely order := by
    intro c hleads
    have hsymbols : ∀ e ∈ order, e.decl.symbol = "f" := by decide
    rw [hsymbols c hleads.mem]
    change c ∈ [lineClaim "f" 1, lineClaim "f" 0]
    rcases List.mem_cons.1 hleads.mem with rfl | h
    · exact .head _
    · rcases List.mem_cons.1 h with rfl | h
      · exact .tail _ (.head _)
      · rw [List.mem_singleton.1 h] at hleads
        exact absurd (hleads.least _ (.head _) rfl) (by decide)
  obtain ⟨-, hrejected, hkept, hclashes, -⟩ := collisions_name_the_holder_iff_timely table rfl
    order order' htickets horder
  exact ⟨rfl, htickets, horder, htimely, hkept.2 htimely, hrejected, hclashes htimely⟩

/-- Three claims made in the opposite order of their tickets: the claim that the first collision
names as kept loses the symbol in the second. In the order of the tickets it is named in none. -/
theorem displaced_claim_is_named_as_kept :
    let claims := [lineClaim "f" 0, lineClaim "f" 1, lineClaim "f" 2]
    let table : ExportTable := {}
    table.entries = [] ∧ (claims.map (·.ticket)).Nodup ∧ claims.reverse.Perm claims ∧
    ((table.claimAll claims.reverse).find? "f").map (·.id) = some 0 ∧
    (table.reported claims.reverse).map (fun x => (x.kept.id, x.rejected.id)) = [(1, 2), (0, 1)] ∧
    (table.reported claims).map (fun x => (x.kept.id, x.rejected.id)) = [(0, 1), (0, 2)] ∧
    ¬ (table.reported claims.reverse).Perm (table.reported claims) := by
  intro claims table
  have hreverse : (table.reported claims.reverse).map (fun x => (x.kept.id, x.rejected.id)) =
      [(1, 2), (0, 1)] := by decide
  have hinTurn : (table.reported claims).map (fun x => (x.kept.id, x.rejected.id)) =
      [(0, 1), (0, 2)] := by decide
  refine ⟨rfl, by decide, claims.reverse_perm, by decide, hreverse, hinTurn, fun hperm => ?_⟩
  have hpairs := hperm.map fun x => (x.kept.id, x.rejected.id)
  rw [hreverse, hinTurn] at hpairs
  exact absurd hpairs (by decide)

end ExportTable

end IncrementalBuild
