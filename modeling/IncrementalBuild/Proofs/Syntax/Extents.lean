import IncrementalBuild.Proofs.Syntax.Grammar
import IncrementalBuild.Proofs.Syntax.Lexing

/-!
# Where items start and end

An item ends with a semicolon or a closing brace. If its tokens stand in order, the bytes
it covers are those from the start of its first token to the end of its last one.
-/

set_option autoImplicit false

namespace IncrementalBuild

namespace Grammar

variable {first last t : Token} {used more : List Token} {node : Item} {span : Span}

/-- No token ends before it starts, or after the next one starts. -/
structure InOrder (used : List Token) : Prop where
  start_le_stop : ∀ t ∈ used, t.span.start ≤ t.span.stop
  stop_le_start : used.Pairwise fun a b => a.span.stop ≤ b.span.start

theorem InOrder.of_append (h : InOrder (used ++ more)) : InOrder used ∧ InOrder more :=
  ⟨⟨fun t ht => h.1 t (List.mem_append_left _ ht), (List.pairwise_append.1 h.2).1⟩,
    ⟨fun t ht => h.1 t (List.mem_append_right _ ht), (List.pairwise_append.1 h.2).2.1⟩⟩

theorem InOrder.first_le (h : InOrder used) (hfirst : used.head? = some first) (ht : t ∈ used) :
    first.span.start ≤ t.span.start ∧ first.span.stop ≤ t.span.stop := by
  obtain ⟨rest, rfl⟩ := List.head?_eq_some_iff.1 hfirst
  rcases List.mem_cons.1 ht with rfl | hrest
  · omega
  · have hstop := (List.pairwise_cons.1 h.2).1 t hrest
    have := h.1 first (List.mem_cons_self ..)
    have := h.1 t ht
    omega

theorem InOrder.le_last (h : InOrder used) (hlast : used.getLast? = some last) (ht : t ∈ used) :
    t.span.start ≤ last.span.start ∧ t.span.stop ≤ last.span.stop := by
  obtain ⟨rest, rfl⟩ := List.getLast?_eq_some_iff.1 hlast
  rcases List.mem_append.1 ht with hrest | hlast'
  · have hstop := (List.pairwise_append.1 h.2).2.2 t hrest last (List.mem_singleton_self _)
    have := h.1 last (List.mem_append_right _ (List.mem_singleton_self _))
    have := h.1 t ht
    omega
  · rw [List.mem_singleton.1 hlast']
    omega

/-- A span reaches from one token of a list to its last one, which ends an item. -/
def EndsItem (used : List Token) (span : Span) : Prop :=
  ∃ t ∈ used, ∃ last, used.getLast? = some last ∧ last.kind ∈ Lexeme.terminators ∧
    span = t.span.merge last.span

theorem EndsItem.prepend (h : EndsItem more span) (used : List Token) :
    EndsItem (used ++ more) span := by
  obtain ⟨t, ht, last, hlast, hkind, rfl⟩ := h
  refine ⟨t, List.mem_append_right _ ht, last, ?_, hkind, rfl⟩
  rw [List.getLast?_append, hlast, Option.some_or]

theorem Block.endsItem (h : Block used span) : EndsItem used span := by
  obtain ⟨hopener, hrun, hcloser⟩ := h
  rename_i opener closer run
  refine ⟨opener, List.mem_cons_self .., closer, ?_, by rw [hcloser]; decide, rfl⟩
  rw [← List.cons_append, List.getLast?_append]
  rfl

theorem endsItem_of_semicolon (h : last.kind = .semicolon) : EndsItem [last] last.span := by
  refine ⟨last, List.mem_singleton_self _, last, rfl, by rw [h]; decide, ?_⟩
  rw [Span.merge, Nat.min_self, Nat.max_self]

theorem Body.endsItem {body : Option Span} (h : Body used body span) : EndsItem used span := by
  cases h with
  | missing hkind => exact endsItem_of_semicolon hkind
  | block hblock => exact hblock.endsItem

/-- An item reaches from its first token to what ends it. -/
theorem ItemOf.exists_endsItem (h : ItemOf used node) :
    ∃ first final, used.head? = some first ∧ EndsItem used final ∧
      node.span = first.span.merge final := by
  cases h with
  | @comptime keyword used span hkeyword hblock =>
    exact ⟨keyword, span, rfl, hblock.endsItem.prepend [keyword], rfl⟩
  | @test keyword name used body hkeyword hname hblock =>
    exact ⟨keyword, body, rfl, hblock.endsItem.prepend (keyword :: name.toList), rfl⟩
  | @fn used more f hused hf =>
    obtain ⟨-, -, -, -, -, hbody⟩ := hf
    rename_i keyword opener name params types ending _ _ _ final
    refine ⟨(used.head?).getD keyword, final, by cases used <;> rfl, ?_, ?_⟩
    · have hends := hbody.endsItem.prepend
        (used ++ keyword :: (name.toList ++ opener :: (params ++ types)))
      simpa using hends
    · rw [Item.span]
      dsimp only
      rw [modifiersOf, Option.getD_map]
  | @var used more v hused hv =>
    obtain ⟨-, -, -, -, hsemicolon⟩ := hv
    rename_i keyword name semicolon types run _
    refine ⟨(used.head?).getD keyword, semicolon.span, by cases used <;> rfl, ?_, ?_⟩
    · have hends := (endsItem_of_semicolon hsemicolon).prepend
        (used ++ keyword :: name :: (types ++ run))
      simpa using hends
    · rw [Item.span]
      dsimp only
      rw [modifiersOf, Option.getD_map]

/-- An item whose tokens stand in order covers the bytes from its first token to its last. -/
theorem ItemOf.span_eq (h : ItemOf used node) (horder : InOrder used) :
    ∃ first last, used.head? = some first ∧ used.getLast? = some last ∧
      last.kind ∈ Lexeme.terminators ∧ node.span = ⟨first.span.start, last.span.stop⟩ := by
  obtain ⟨first, final, hfirst, ⟨t, ht, last, hlast, hkind, rfl⟩, hspan⟩ := h.exists_endsItem
  refine ⟨first, last, hfirst, hlast, hkind, ?_⟩
  have hfirstt := horder.first_le hfirst ht
  have hlastt := horder.le_last hlast ht
  have hends := horder.first_le hfirst (List.mem_of_getLast? hlast)
  rw [hspan, Span.merge, Span.merge, Span.mk.injEq]
  dsimp only
  omega

end Grammar

end IncrementalBuild
