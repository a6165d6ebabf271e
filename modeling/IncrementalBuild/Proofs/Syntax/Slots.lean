import IncrementalBuild.Proofs.Syntax.Exchanging
import IncrementalBuild.Proofs.Syntax.Lines

/-!
# Types in declarations can be exchanged

A type is written in a declaration after a colon or after the parenthesis that closes the
parameters, and any other type can be written there in its place.

## Main results

* `Grammar.ItemOf.exists_slot`: the tokens of an item around one of its types.
* `Spells.exists_declares`: a text that spells a type can be put in the place of any type of a
  text without errors.
-/

set_option autoImplicit false

namespace IncrementalBuild

/-- The types written in an item. -/
def Item.types : Item → List TypeExpr
  | .function f => f.params.map (·.type) ++ [f.result]
  | .variable v => v.type.toList
  | .comptime _ | .test _ => []

namespace Grammar

variable {f : Nat → Nat} {used : List Token} {e : TypeExpr}

/-! ## Slots -/

theorem Entries.exists_closer {α : Type} {P : List Token → α → Prop} {as : List α}
    (h : Entries P used as) :
    ∃ before closer, used = before ++ [closer] ∧ closer.kind = .rightParen := by
  induction h with
  | @close closer hcloser => exact ⟨[], closer, rfl, hcloser⟩
  | @last used a closer _ hcloser => exact ⟨used, closer, rfl, hcloser⟩
  | @more used more a as comma _ _ _ ih =>
    obtain ⟨before, closer, rfl, hcloser⟩ := ih
    exact ⟨used ++ comma :: before, closer, by simp, hcloser⟩

/-- Another entry can stand in the place of one, with what is around it moved. -/
theorem Entries.exists_slot {α : Type} {P : List Token → α → Prop} {g : α → α} {as : List α} {a : α}
    (hP : ∀ used a, P used a → P (used.map (Token.moved f)) (g a)) (h : Entries P used as)
    (ha : a ∈ as) :
    ∃ before slot after, used = before ++ (slot ++ after) ∧ P slot a ∧
      ∀ slot' a', P slot' a' → ∃ as',
        Entries P (before.map (Token.moved f) ++ (slot' ++ after.map (Token.moved f))) as' ∧
        a' ∈ as' := by
  induction h with
  | close => cases ha
  | @last used b closer hb hcloser =>
    obtain rfl := List.mem_singleton.1 ha
    refine ⟨[], used, [closer], rfl, hb, fun slot' a' ha' => ⟨[a'], ?_, List.mem_cons_self ..⟩⟩
    exact .last ha' hcloser
  | @more used more b as comma hb hcomma hmore ih =>
    rcases List.mem_cons.1 ha with rfl | ha
    · refine ⟨[], used, comma :: more, rfl, hb, fun slot' a' ha' =>
        ⟨a' :: as.map g, ?_, List.mem_cons_self ..⟩⟩
      exact .more ha' hcomma (hmore.moved hP)
    · obtain ⟨before, slot, after, rfl, hslot, hother⟩ := ih ha
      refine ⟨used ++ comma :: before, slot, after, by simp, hslot, fun slot' a' ha' => ?_⟩
      obtain ⟨as', has', hmem⟩ := hother slot' a' ha'
      have hmore' := @Entries.more _ P _ _ _ _ (comma.moved f) (hP _ _ hb) hcomma has'
      exact ⟨g b :: as', by simpa using hmore', List.mem_cons_of_mem _ hmem⟩

theorem Function.exists_slot (hf : Monotone f) {m : Modifiers} {item : FunctionItem}
    (h : Function m used item) (he : e ∈ (Item.function item).types) :
    ∃ before s slot after, used = before ++ s :: (slot ++ after) ∧ s.kind ∈ Lexeme.dividers ∧
      TypeOf maxTypeDepth slot e ∧
      ∀ m' slot' e', TypeOf maxTypeDepth slot' e' → ∃ item',
        Function m' (before.map (Token.moved f) ++
          s.moved f :: (slot' ++ after.map (Token.moved f))) item' ∧
        e' ∈ (Item.function item').types := by
  obtain ⟨hkeyword, hname, hopener, hparams, hresult, hbody⟩ := h
  rename_i keyword opener name used more ending params result body stop
  have hname' : ∀ t ∈ name.map (Token.moved f), t.kind = .identifier := by
    intro t ht
    obtain ⟨t', ht', rfl⟩ := Option.map_eq_some_iff.1 ht
    exact hname t' ht'
  have hmoved : ∀ used p, Parameter used p →
      Parameter (used.map (Token.moved f)) (p.moved f) := fun _ _ hp => hp.moved hf
  rcases List.mem_append.1 he with he | he
  · obtain ⟨p, hp, rfl⟩ := List.mem_map.1 he
    obtain ⟨before, slot, after, rfl, hslot, hother⟩ := hparams.exists_slot hmoved hp
    obtain ⟨hpname, hcolon, htype⟩ := hslot
    rename_i pname colon slot type _
    refine ⟨keyword :: (name.toList ++ opener :: (before ++ [pname])), colon, slot,
      after ++ (more ++ ending), by simp, by rw [hcolon]; decide, htype,
      fun m' slot' e' he' => ?_⟩
    obtain ⟨params', hparams', hmem⟩ := hother _ _
      (@Parameter.typed (pname.moved f) (colon.moved f) slot' e' hpname hcolon he')
    have hfunction := @Function.fn m' (keyword.moved f) (opener.moved f) _ _ _ _ _ _ _ _ hkeyword
      hname' hopener hparams' (hresult.moved hf) (hbody.moved hf)
    refine ⟨_, by simpa [Option.toList_map] using hfunction, ?_⟩
    exact List.mem_append_left _ (List.mem_map.2 ⟨_, hmem, rfl⟩)
  · obtain rfl := List.mem_singleton.1 he
    obtain ⟨before, closer, rfl, hcloser⟩ := hparams.exists_closer
    refine ⟨keyword :: (name.toList ++ opener :: before), closer, more, ending, by simp,
      by rw [hcloser]; decide, hresult, fun m' slot' e' he' => ?_⟩
    have hfunction := @Function.fn m' (keyword.moved f) (opener.moved f) _ _ _ _ _ _ _ _ hkeyword
      hname' hopener (hparams.moved hmoved) he' (hbody.moved hf)
    refine ⟨_, by simpa [Option.toList_map] using hfunction, ?_⟩
    exact List.mem_append_right _ (List.mem_singleton_self _)

theorem Variable.exists_slot {m : Modifiers} {item : VariableItem}
    (h : Variable m used item) (he : e ∈ (Item.variable item).types) :
    ∃ before s slot after, used = before ++ s :: (slot ++ after) ∧ s.kind ∈ Lexeme.dividers ∧
      TypeOf maxTypeDepth slot e ∧
      ∀ m' slot' e', TypeOf maxTypeDepth slot' e' → ∃ item',
        Variable m' (before.map (Token.moved f) ++
          s.moved f :: (slot' ++ after.map (Token.moved f))) item' ∧
        e' ∈ (Item.variable item').types := by
  obtain ⟨hkeyword, hname, htype, hassignment, hsemicolon⟩ := h
  rename_i keyword name semicolon used more type
  obtain rfl := Option.mem_toList.1 he
  obtain _ | ⟨hcolon, htype⟩ := htype
  rename_i colon slot
  refine ⟨[keyword, name], colon, slot, more ++ [semicolon], rfl, by rw [hcolon]; decide, htype,
    fun m' slot' e' he' => ?_⟩
  have hannotation : Annotation (colon.moved f :: slot') (some e') := .typed hcolon he'
  have hvariable := @Variable.var m' (keyword.moved f) (name.moved f) (semicolon.moved f) _ _ _
    hkeyword hname hannotation (hassignment.moved (f := f)) hsemicolon
  exact ⟨_, by simpa using hvariable, List.mem_singleton_self _⟩

/-- Every type of an item is written after a divider, and any other type can stand in its place,
with what is around it moved. -/
theorem ItemOf.exists_slot (hf : Monotone f) {node : Item} (h : ItemOf used node)
    (he : e ∈ node.types) :
    ∃ before s slot after, used = before ++ s :: (slot ++ after) ∧ s.kind ∈ Lexeme.dividers ∧
      TypeOf maxTypeDepth slot e ∧
      ∀ slot' e', TypeOf maxTypeDepth slot' e' → ∃ node',
        ItemOf (before.map (Token.moved f) ++ s.moved f :: (slot' ++ after.map (Token.moved f)))
          node' ∧
        e' ∈ node'.types := by
  cases h with
  | comptime => cases he
  | test => cases he
  | @fn used more item hused hitem =>
    obtain ⟨before, s, slot, after, rfl, hs, hslot, hother⟩ := hitem.exists_slot hf he
    refine ⟨used ++ before, s, slot, after, by simp, hs, hslot, fun slot' e' he' => ?_⟩
    obtain ⟨item', hitem', hmem⟩ := hother (modifiersOf (used.map (Token.moved f))) slot' e' he'
    exact ⟨.function item', by simpa using ItemOf.fn hused.moved hitem', hmem⟩
  | @var used more item hused hitem =>
    obtain ⟨before, s, slot, after, rfl, hs, hslot, hother⟩ := hitem.exists_slot he
    refine ⟨used ++ before, s, slot, after, by simp, hs, hslot, fun slot' e' he' => ?_⟩
    obtain ⟨item', hitem', hmem⟩ := hother (modifiersOf (used.map (Token.moved f))) slot' e' he'
    exact ⟨.variable item', by simpa using ItemOf.var hused.moved hitem', hmem⟩

/-! ## Ends of types -/

/-- A span reaches from the first token of a list to the last one, which is a name. -/
def EndsType (used : List Token) (span : Span) : Prop :=
  ∃ first last, used.head? = some first ∧ used.getLast? = some last ∧ last.kind = .identifier ∧
    span = ⟨first.span.start, last.span.stop⟩

theorem EndsType.cons {t : Token} {span : Span} (h : EndsType used span) (between : List Token)
    (horder : InOrder (t :: (between ++ used))) :
    EndsType (t :: (between ++ used)) (t.span.merge span) := by
  obtain ⟨first, last, hfirst, hlast, hkind, rfl⟩ := h
  have hlast' : (t :: (between ++ used)).getLast? = some last := by
    rw [← List.cons_append, List.getLast?_append, hlast, Option.some_or]
  have hmem := horder.first_le rfl
    (List.mem_cons_of_mem _ (List.mem_append_right _ (List.mem_of_head? hfirst)))
  have hend := horder.le_last hlast' (List.mem_cons_self ..)
  refine ⟨t, last, rfl, hlast', hkind, ?_⟩
  rw [Span.merge, Span.mk.injEq]
  dsimp only
  omega

/-- A type ends with a name, and covers the bytes from its first token to that. -/
theorem TypeOf.endsType {levels : Nat} (h : TypeOf levels used e) (horder : InOrder used) :
    EndsType used e.span := by
  induction levels generalizing used e with
  | zero => exact h.elim
  | succ levels ih =>
    cases h with
    | @named t hkind => exact ⟨t, t, rfl, rfl, hkind, rfl⟩
    | @pointer star qualifiers used pointee _ _ hused =>
      have hsub := (@InOrder.of_append (star :: qualifiers) used horder).2
      exact (ih hused hsub).cons qualifiers horder
    | @manyPointer opener star closer qualifiers used pointee _ _ _ _ hused =>
      have hsub := (@InOrder.of_append (opener :: star :: closer :: qualifiers) used horder).2
      exact (ih hused hsub).cons (star :: closer :: qualifiers) horder
    | @array opener literal closer length used element _ _ _ _ hused =>
      have hsub := (@InOrder.of_append [opener, literal, closer] used horder).2
      exact (ih hused hsub).cons [literal, closer] horder
    | @function keyword opener used more params result _ _ _ hmore =>
      have hsub := (@InOrder.of_append (keyword :: opener :: used) more horder).2
      exact (ih hmore hsub).cons (opener :: used) horder

/-! ## Derivations -/

theorem Derivation.append {used more : List Token} {pieces others : List (List Token × Item)}
    (h : Derivation used pieces) (h' : Derivation more others) :
    Derivation (used ++ more) (pieces ++ others) := by
  induction h with
  | nil => exact h'
  | cons hnode _ ih =>
    rw [List.append_assoc]
    exact .cons hnode ih

theorem Derivation.moved (hf : Monotone f) {pieces : List (List Token × Item)}
    (h : Derivation used pieces) :
    ∃ pieces', Derivation (used.map (Token.moved f)) pieces' := by
  induction h with
  | nil => exact ⟨[], .nil⟩
  | cons hnode _ ih =>
    obtain ⟨pieces', hpieces⟩ := ih
    rw [List.map_append]
    exact ⟨_, .cons (hnode.moved hf) hpieces⟩

theorem Derivation.exists_of_mem {pieces : List (List Token × Item)} {piece : List Token × Item}
    (h : Derivation used pieces) (hpiece : piece ∈ pieces) :
    ∃ before after earlier later, used = before ++ (piece.1 ++ after) ∧
      Derivation before earlier ∧ ItemOf piece.1 piece.2 ∧ Derivation after later := by
  induction h with
  | nil => cases hpiece
  | @cons used more node pieces hnode hpieces ih =>
    rcases List.mem_cons.1 hpiece with rfl | hpiece
    · exact ⟨[], more, [], pieces, rfl, .nil, hnode, hpieces⟩
    · obtain ⟨before, after, earlier, later, rfl, hbefore, hitem, hafter⟩ := ih hpiece
      exact ⟨used ++ before, after, _, later, by simp, .cons hnode hbefore, hitem, hafter⟩

end Grammar

open Grammar

/-! ## Texts in the place of types -/

/-- A text without errors declares something of type `e` and writes that type at a span. -/
def Declares (text : String) (span : Span) (e : TypeExpr) : Prop :=
  (parse text).error = none ∧ ∃ node ∈ (parse text).items, e ∈ node.types ∧ e.span = span

/-- A text spells a type of at most so many layers that is `good`, wherever it stands, if no word
goes on after it. -/
def Spells (levels : Nat) (text : List Char) (good : TypeExpr → Prop) : Prop :=
  ∀ o rest tokens, (∀ c ∈ rest.head?, Lexeme.continuesWord c = false) →
    Lexes (o + utf8Length text) rest tokens →
    ∃ used e, Lexes o (text ++ rest) (used ++ tokens) ∧ TypeOf levels used e ∧
      e.span = ⟨o, o + utf8Length text⟩ ∧ good e

theorem parse_of_derivation {text : String} {tokens : List Token}
    {pieces : List (List Token × Item)} (h : Lexes 0 text.toList tokens)
    (hpieces : Derivation tokens pieces) :
    (parse text).error = none ∧ (parse text).items = pieces.map (·.2) := by
  have hparse := @itemsOf_append text.utf8ByteSize _ [] _ hpieces
  rw [List.append_nil] at hparse
  rw [parse_of_lexes h, hparse]
  exact ⟨rfl, List.append_nil _⟩

/-- A text is cut before a type that stands after a divider, and after it: what is before the
type has its tokens whatever comes next, and what is after it starts anew. -/
theorem Lexes.exists_around {u w v : List Char} {before slot after : List Token} {s : Token}
    (h : Lexes 0 (u ++ (w ++ v)) (before ++ s :: (slot ++ after))) (hs : s.kind ∈ Lexeme.dividers)
    (hends : EndsType slot ⟨utf8Length u, utf8Length u + utf8Length w⟩) :
    (∀ v' tokens, Lexes (utf8Length u) v' tokens → Lexes 0 (u ++ v') (before ++ s :: tokens)) ∧
    Lexes (utf8Length u + utf8Length w) v after ∧
    (∀ c ∈ v.head?, Lexeme.continuesWord c = false) ∧
    0 < utf8Length w ∧
    ∀ t ∈ before ++ [s], t.span.start ≤ utf8Length u ∧ t.span.stop ≤ utf8Length u := by
  obtain ⟨first, last, hfirst, hlast, hkind, hspan⟩ := hends
  rw [Span.mk.injEq] at hspan
  obtain ⟨more, rfl⟩ := List.head?_eq_some_iff.1 hfirst
  obtain ⟨init, hinit⟩ := List.getLast?_eq_some_iff.1 hlast
  obtain ⟨x, d, y, r, htext, hd, hstart, hr, hexchange⟩ := h.exists_exchange hs
  have htext' : u ++ (w ++ v) = (x ++ d :: y) ++ r := by
    rw [htext]
    simp
  obtain ⟨hu, rfl⟩ := append_inj_of_utf8Length htext' (by omega)
  rw [← hu, Nat.zero_add] at hr hexchange
  have hwords : Lexes (utf8Length u) (w ++ v) (init ++ last :: after) := by
    have hslot := congrArg (· ++ after) hinit
    simp only [List.cons_append, List.append_assoc, List.nil_append] at hslot
    rwa [← hslot]
  obtain ⟨w', v', hcut, hstop, hv, hstops⟩ := hwords.exists_after_word hkind
  obtain ⟨rfl, rfl⟩ := append_inj_of_utf8Length hcut (by omega)
  have hpos := hwords.inOrder.1 last (by simp)
  refine ⟨fun v' tokens hv' => ?_, hv, hstops, by omega, fun t ht => ?_⟩
  · have hall := hexchange v' tokens hv'
    rw [hu]
    simpa using hall
  · have hordered : Lexes 0 (u ++ (w ++ v)) ((before ++ [s]) ++ first :: (more ++ after)) := by
      simpa using h
    have hle := (List.pairwise_append.1 hordered.inOrder.2).2.2 t ht first (List.mem_cons_self ..)
    have hlt := (hordered.inOrder.1 t (List.mem_append_left _ ht)).2
    omega

/-- A text that spells a type can be put in the place of any type that a text without errors
declares. -/
theorem Spells.exists_declares {u w v text : String} {e : TypeExpr} {good : TypeExpr → Prop}
    (hspells : Spells maxTypeDepth text.toList good)
    (h : Declares (u ++ w ++ v) ⟨u.utf8ByteSize, u.utf8ByteSize + w.utf8ByteSize⟩ e) :
    ∃ e', Declares (u ++ text ++ v) ⟨u.utf8ByteSize, u.utf8ByteSize + text.utf8ByteSize⟩ e' ∧
      good e' := by
  have htext (z : String) : (u ++ z ++ v).toList = u.toList ++ (z.toList ++ v.toList) := by
    rw [String.toList_append, String.toList_append, List.append_assoc]
  obtain ⟨herror, node, hnode, he, hspan⟩ := h
  obtain ⟨tokens, pieces, htokens, hpieces⟩ := exists_lexes_of_error_eq_none herror
  rw [(parse_of_derivation htokens hpieces).2] at hnode
  obtain ⟨piece, hpiece, rfl⟩ := List.mem_map.1 hnode
  obtain ⟨before, after, earlier, later, rfl, hbefore, hitem, hafter⟩ :=
    hpieces.exists_of_mem hpiece
  simp only [← utf8Length_toList] at hspan ⊢
  -- what is before the type stays, what comes after it moves
  let f : Nat → Nat := fun n =>
    if n ≤ utf8Length u.toList then n
    else utf8Length u.toList + utf8Length text.toList +
      (n - (utf8Length u.toList + utf8Length w.toList))
  have hf : Monotone f := by
    intro m n hmn
    dsimp only [f]
    split <;> split <;> omega
  obtain ⟨front, s, slot, back, hused, hs, hslot, hother⟩ := hitem.exists_slot hf he
  have htokens' : Lexes 0 (u.toList ++ (w.toList ++ v.toList))
      ((before ++ front) ++ s :: (slot ++ (back ++ after))) := by
    rw [← htext]
    simpa [hused] using htokens
  have hends : EndsType slot e.span := by
    have hsub := (@InOrder.of_append ((before ++ front) ++ [s]) (slot ++ (back ++ after)) (by
      simpa using htokens'.grammar_inOrder)).2
    exact hslot.endsType hsub.of_append.1
  rw [hspan] at hends
  obtain ⟨hexchange, hv, hstops, hpos, hbelow⟩ := htokens'.exists_around hs hends
  have hmoved : Lexes (utf8Length u.toList + utf8Length text.toList) v.toList
      ((back ++ after).map (Token.moved f)) := by
    refine hv.moved fun n => ?_
    dsimp only [f]
    rw [if_neg (by omega)]
    omega
  obtain ⟨slot', e', hslot', htype, hspan', hgood⟩ := hspells _ v.toList _ hstops hmoved
  have hstays : ((before ++ front) ++ [s]).map (Token.moved f) = (before ++ front) ++ [s] := by
    refine (List.map_congr_left fun t ht => ?_).trans (List.map_id _)
    obtain ⟨hstart, hstop⟩ := hbelow t ht
    simp only [Token.moved, Span.moved, f, if_pos hstart, if_pos hstop, id]
  obtain ⟨node', hnode', hmem⟩ := hother slot' e' htype
  obtain ⟨earlier', hearlier⟩ := hbefore.moved hf
  obtain ⟨later', hlater⟩ := hafter.moved hf
  have hnew : Lexes 0 (u ++ text ++ v).toList (before.map (Token.moved f) ++
      ((front.map (Token.moved f) ++ s.moved f :: (slot' ++ back.map (Token.moved f))) ++
        after.map (Token.moved f))) := by
    have hlist : before.map (Token.moved f) ++
        ((front.map (Token.moved f) ++ s.moved f :: (slot' ++ back.map (Token.moved f))) ++
          after.map (Token.moved f)) =
        ((before ++ front) ++ [s]).map (Token.moved f) ++
          (slot' ++ (back ++ after).map (Token.moved f)) := by simp
    rw [htext, hlist, hstays]
    simpa using hexchange _ _ hslot'
  obtain ⟨herror', hitems⟩ := parse_of_derivation hnew (hearlier.append (.cons hnode' hlater))
  refine ⟨e', ⟨herror', node', ?_, hmem, hspan'⟩, hgood⟩
  rw [hitems]
  simp

end IncrementalBuild
