import IncrementalBuild.Proofs.Source.Interning
import IncrementalBuild.Proofs.Syntax.Slices
import IncrementalBuild.Proofs.Syntax.Spans

/-!
# Spans nest

An item, and each part of it that has a span, covers the bytes from its first token to its last
one. The tokens of a text stand in it in order and over the bytes of their own texts. So the items
of a text follow one another, parts lie in what they are parts of, and where a name stands in the
tree the text has that name.
-/

set_option autoImplicit false

namespace IncrementalBuild

/-! ## Spans in spans -/

/-- A span covers something and lies in another. -/
structure Span.Within (inner outer : Span) : Prop where
  start_lt_stop : inner.start < inner.stop
  start_le : outer.start ≤ inner.start
  stop_le : inner.stop ≤ outer.stop

/-- The types in a written type lie in it, as theirs do in them, and each name is the text it
covers. -/
inductive TypeExpr.Nests (text : String) : TypeExpr → Prop where
  | named {name : String} {span : Span} :
      slice (bytesOf text) span = bytesOf name → Nests text (.named name span)
  | pointer {isConst isVolatile isMany : Bool} {pointee : TypeExpr} {span : Span} :
      pointee.span.Within span → Nests text pointee →
      Nests text (.pointer isConst isVolatile isMany pointee span)
  | array {length : Nat} {element : TypeExpr} {span : Span} :
      element.span.Within span → Nests text element → Nests text (.array length element span)
  | function {params : List TypeExpr} {result : TypeExpr} {span : Span} :
      (∀ p ∈ params, p.span.Within span) → (∀ p ∈ params, Nests text p) →
      result.span.Within span → Nests text result → Nests text (.function params result span)

/-- A parameter starts with its name, which is all of the identifier there, and after which its
type lies in it. -/
structure Param.Nests (text : String) (p : Param) : Prop where
  named : slice (bytesOf text) ⟨p.span.start, p.span.start + p.name.utf8ByteSize⟩ = bytesOf p.name
  leading : ∃ before after, text.toList = before ++ after ∧ utf8Length before = p.span.start ∧
    Longest (.token .identifier) p.name.toList after
  name_le : p.span.start + p.name.utf8ByteSize ≤ p.type.span.start
  within : p.type.span.Within p.span
  type : p.type.Nests text

/-- The parts of a function lie in it, its parameters one after another, and its body at its end;
where its name is said to be there is its name. -/
structure FunctionItem.Nests (text : String) (f : FunctionItem) : Prop where
  name : f.nameSpan.Within f.span
  named : ∀ name ∈ f.name, slice (bytesOf text) f.nameSpan = bytesOf name
  params : ∀ p ∈ f.params, p.span.Within f.span ∧ p.Nests text
  inOrder : f.params.Pairwise fun p q => p.span.stop ≤ q.span.start
  result : f.result.span.Within f.span ∧ f.result.Nests text
  body : ∀ b ∈ f.body, b.Within f.span ∧ b.stop = f.span.stop

/-- The parts of an item lie in it. -/
def Item.Nests (text : String) : Item → Prop
  | .function f => f.Nests text
  | .variable v => ∀ e ∈ v.type, e.span.Within v.span ∧ e.Nests text
  | .comptime _ => True
  | .test t => t.body.Within t.span

namespace Grammar

variable {text : String} {t : Token} {used more part : List Token} {s s' : Span}

/-! ## Tokens in their places -/

/-- Tokens stand in a text one after another, each of them as long as it can be. -/
structure Placed (text : String) (used : List Token) : Prop where
  standsIn : ∀ t ∈ used, t.StandsIn 0 text.toList
  start_lt_stop : ∀ t ∈ used, t.span.start < t.span.stop
  stop_le_start : used.Pairwise fun a b => a.span.stop ≤ b.span.start

theorem Placed.sublist (h : Placed text used) (hpart : part.Sublist used) :
    Placed text part where
  standsIn t ht := h.standsIn t (hpart.subset ht)
  start_lt_stop t ht := h.start_lt_stop t (hpart.subset ht)
  stop_le_start := h.stop_le_start.sublist hpart

theorem Placed.inOrder (h : Placed text used) : InOrder used :=
  ⟨fun t ht => Nat.le_of_lt (h.start_lt_stop t ht), h.stop_le_start⟩

/-- A span reaches from the first to the last of some tokens. -/
def Covers (used : List Token) (s : Span) : Prop :=
  ∃ first last, used.head? = some first ∧ used.getLast? = some last ∧
    s = ⟨first.span.start, last.span.stop⟩

theorem covers_singleton (t : Token) : Covers [t] t.span := ⟨t, t, rfl, rfl, rfl⟩

/-- What covers a part of some tokens lies in what covers them all. -/
theorem Covers.within (h : Covers used s) (hpart : Covers part s') (hused : Placed text used)
    (hsub : part.Sublist used) : s'.Within s := by
  obtain ⟨first, last, hfirst, hlast, rfl⟩ := h
  obtain ⟨first', last', hfirst', hlast', rfl⟩ := hpart
  have hmem : first' ∈ part := List.mem_of_head? hfirst'
  have hmem' : last' ∈ part := List.mem_of_getLast? hlast'
  constructor
  · have hlt := hused.start_lt_stop first' (hsub.subset hmem)
    exact hlt.trans_le ((hused.sublist hsub).inOrder.le_last hlast' hmem).2
  · exact (hused.inOrder.first_le hfirst (hsub.subset hmem)).1
  · exact (hused.inOrder.le_last hlast (hsub.subset hmem')).2

/-- Tokens that come first are covered by a span that ends first. -/
theorem Covers.stop_le_start (h : Covers used s) (h' : Covers more s')
    (horder : Placed text (used ++ more)) : s.stop ≤ s'.start := by
  obtain ⟨first, last, hfirst, hlast, rfl⟩ := h
  obtain ⟨first', last', hfirst', hlast', rfl⟩ := h'
  exact (List.pairwise_append.1 horder.stop_le_start).2.2 last (List.mem_of_getLast? hlast)
    first' (List.mem_of_head? hfirst')

/-- What covers the last of some tokens ends with what covers all. -/
theorem Covers.stop_eq (h : Covers (more ++ used) s) (h' : Covers used s') : s'.stop = s.stop := by
  obtain ⟨first, last, hfirst, hlast, rfl⟩ := h
  obtain ⟨first', last', hfirst', hlast', rfl⟩ := h'
  rw [List.getLast?_append, hlast', Option.some_or] at hlast
  rw [Option.some.inj hlast]

theorem sublist_rest (t : Token) (more used : List Token) :
    used.Sublist (t :: (more ++ used)) := (List.sublist_append_right more used).cons t

/-- The span of a token and of what covers later ones covers all from that token on. -/
theorem Covers.merge (h : Covers used s) (more : List Token)
    (horder : Placed text (t :: (more ++ used))) :
    Covers (t :: (more ++ used)) (t.span.merge s) := by
  have hlater := (covers_singleton t).stop_le_start h
    (horder.sublist ((List.sublist_append_right more used).cons_cons t))
  obtain ⟨first, last, hfirst, hlast, rfl⟩ := h
  have hlt := horder.start_lt_stop t (List.mem_cons_self ..)
  have hend := (horder.sublist (sublist_rest t more used)).inOrder.le_last hlast
    (List.mem_of_head? hfirst)
  have hlt' := horder.start_lt_stop last
    ((sublist_rest t more used).subset (List.mem_of_getLast? hlast))
  refine ⟨t, last, rfl, ?_, ?_⟩
  · rw [← List.cons_append, List.getLast?_append, hlast, Option.some_or]
  · rw [Span.merge, Span.mk.injEq]
    dsimp only at hlater ⊢
    omega

/-! ## One piece after another -/

section

variable {α : Type} {R : List Token → α → Prop} {pieces : List (List Token)} {as : List α} {a : α}

/-- Entries are spelled by pieces of the tokens, in order. -/
theorem Entries.exists_pieces (h : Entries R used as) :
    ∃ pieces, List.Forall₂ R pieces as ∧ pieces.flatten.Sublist used := by
  induction h with
  | close _ => exact ⟨[], .nil, List.nil_sublist _⟩
  | @last piece a closer ha _ =>
    refine ⟨[piece], .cons ha .nil, ?_⟩
    rw [List.flatten_singleton]
    exact List.sublist_append_left piece [closer]
  | @more piece later a as comma ha _ _ ih =>
    obtain ⟨pieces, hpieces, hsub⟩ := ih
    refine ⟨piece :: pieces, .cons ha hpieces, ?_⟩
    rw [List.flatten_cons]
    exact (hsub.cons comma).append_left piece

theorem exists_piece (h : List.Forall₂ R pieces as) (ha : a ∈ as) :
    ∃ piece, R piece a ∧ piece.Sublist pieces.flatten := by
  induction h with
  | nil => cases ha
  | @cons piece a' pieces as hpiece _ ih =>
    rw [List.flatten_cons]
    rcases List.mem_cons.1 ha with rfl | ha
    · exact ⟨piece, hpiece, List.sublist_append_left ..⟩
    · obtain ⟨piece', hpiece', hsub⟩ := ih ha
      exact ⟨piece', hpiece', hsub.trans (List.sublist_append_right ..)⟩

/-- What is spelled by pieces in order is in order. -/
theorem pairwise_of_pieces {spanOf : α → Span} (h : List.Forall₂ R pieces as)
    (hplaced : Placed text pieces.flatten)
    (hR : ∀ piece a, R piece a → Placed text piece → Covers piece (spanOf a)) :
    as.Pairwise fun a b => (spanOf a).stop ≤ (spanOf b).start := by
  induction h with
  | nil => exact .nil
  | @cons piece a pieces as hpiece hpieces ih =>
    rw [List.flatten_cons] at hplaced
    have hlater := hplaced.sublist (List.sublist_append_right ..)
    refine .cons (fun b hb => ?_) (ih hlater)
    obtain ⟨piece', hpiece', hsub⟩ := exists_piece hpieces hb
    have hfirst := hR piece a hpiece (hplaced.sublist (List.sublist_append_left ..))
    have hsecond := hR piece' b hpiece' (hlater.sublist hsub)
    exact hfirst.stop_le_start hsecond (hplaced.sublist (hsub.append_left piece))

end

/-! ## Types, parameters and blocks -/

/-- A layer of a type nests if the types in it do. -/
theorem Layer.nests {P : List Token → TypeExpr → Prop} {e : TypeExpr}
    (hP : ∀ used e, P used e → Placed text used → Covers used e.span ∧ e.Nests text)
    (h : Layer P used e) (hused : Placed text used) : Covers used e.span ∧ e.Nests text := by
  cases h with
  | @named t hkind =>
    exact ⟨covers_singleton t, .named (hused.standsIn t (List.mem_cons_self ..)).liesIn.text⟩
  | @pointer star qualifiers used pointee _ _ hpointee =>
    have hsub := sublist_rest star qualifiers used
    obtain ⟨hcovers, hnests⟩ := hP _ _ hpointee (hused.sublist hsub)
    have hall := hcovers.merge qualifiers hused
    exact ⟨hall, .pointer (hall.within hcovers hused hsub) hnests⟩
  | @manyPointer opener star closer qualifiers used pointee _ _ _ _ hpointee =>
    have hsub := sublist_rest opener (star :: closer :: qualifiers) used
    obtain ⟨hcovers, hnests⟩ := hP _ _ hpointee (hused.sublist hsub)
    have hall := hcovers.merge (star :: closer :: qualifiers) hused
    exact ⟨hall, .pointer (hall.within hcovers hused hsub) hnests⟩
  | @array opener literal closer length used element _ _ _ _ helement =>
    have hsub := sublist_rest opener [literal, closer] used
    obtain ⟨hcovers, hnests⟩ := hP _ _ helement (hused.sublist hsub)
    have hall := hcovers.merge [literal, closer] hused
    exact ⟨hall, .array (hall.within hcovers hused hsub) hnests⟩
  | @function keyword opener used more params result _ _ hparams hresult =>
    have hsub := sublist_rest keyword (opener :: used) more
    obtain ⟨hcovers, hnests⟩ := hP _ _ hresult (hused.sublist hsub)
    have hall := hcovers.merge (opener :: used) hused
    obtain ⟨pieces, hpieces, hflat⟩ := hparams.exists_pieces
    have hparam (p : TypeExpr) (hp : p ∈ params) : p.span.Within
        (keyword.span.merge result.span) ∧ p.Nests text := by
      obtain ⟨piece, hpiece, hpart⟩ := exists_piece hpieces hp
      have hinner : piece.Sublist (keyword :: opener :: (used ++ more)) :=
        (((hpart.trans hflat).trans (List.sublist_append_left used more)).cons opener).cons keyword
      obtain ⟨hp, hpnests⟩ := hP _ _ hpiece (hused.sublist hinner)
      exact ⟨hall.within hp hused hinner, hpnests⟩
    exact ⟨hall, .function (fun p hp => (hparam p hp).1) (fun p hp => (hparam p hp).2)
      (hall.within hcovers hused hsub) hnests⟩

theorem TypeOf.nests {levels : Nat} {e : TypeExpr} (h : TypeOf levels used e)
    (hused : Placed text used) : Covers used e.span ∧ e.Nests text := by
  induction levels generalizing used e with
  | zero => exact h.elim
  | succ levels ih => exact Layer.nests (fun _ _ he hplaced => ih he hplaced) h hused

theorem Parameter.nests {p : Param} (h : Parameter used p) (hused : Placed text used) :
    Covers used p.span ∧ p.Nests text := by
  obtain ⟨hkind, -, htype⟩ := h
  rename_i name colon used type
  have hsub := sublist_rest name [colon] used
  obtain ⟨hcovers, hnests⟩ := htype.nests (hused.sublist hsub)
  have hall := hcovers.merge [colon] hused
  have hplace := hused.standsIn name (List.mem_cons_self ..)
  obtain ⟨before, after, htext, hspan, hlongest⟩ := hplace.place
  rw [Nat.zero_add, utf8Length_toList] at hspan
  have hstart : (name.span.merge type.span).start = name.span.start := by
    obtain ⟨first, last, hfirst, -, hmerge⟩ := hall
    rw [hmerge, ← Option.some.inj hfirst]
  have hbefore : utf8Length before = name.span.start := by rw [hspan]
  have hstop : name.span.stop = name.span.start + name.text.utf8ByteSize := by rw [hspan]
  have hlater := (covers_singleton name).stop_le_start hcovers
    (hused.sublist ((List.sublist_cons_self colon used).cons_cons name))
  refine ⟨hall, ?_, ?_, ?_, hall.within hcovers hused hsub, hnests⟩
  all_goals
    dsimp only
    rw [hstart]
  · rw [← hstop]
    exact hplace.liesIn.text
  · rw [hkind] at hlongest
    exact ⟨before, _, htext, hbefore, hlongest⟩
  · rw [← hstop]
    exact hlater

theorem Block.covers (h : Block used s) (hused : Placed text used) : Covers used s := by
  obtain ⟨-, -, -⟩ := h
  rename_i opener closer run
  exact (covers_singleton closer).merge run hused

/-! ## Items -/

theorem ItemOf.covers {node : Item} (h : ItemOf used node) (hused : Placed text used) :
    Covers used node.span := by
  obtain ⟨first, last, hfirst, hlast, -, hspan⟩ := h.span_eq hused.inOrder
  exact ⟨first, last, hfirst, hlast, hspan⟩

/-- A function whose tokens, with those before it, are covered by its span nests. -/
theorem Function.nests {m : Modifiers} {f : FunctionItem} (h : Function m more f)
    (hcovers : Covers (used ++ more) f.span) (hplaced : Placed text (used ++ more)) :
    f.Nests text := by
  obtain ⟨-, -, -, hparams, hresult, hbody⟩ := h
  rename_i keyword opener name entries types ending params result body stop
  have hentries : entries.Sublist (used ++
      keyword :: (name.toList ++ opener :: (entries ++ (types ++ ending)))) :=
    List.IsInfix.sublist ⟨used ++ keyword :: (name.toList ++ [opener]), types ++ ending, by simp⟩
  have htypes : types.Sublist (used ++
      keyword :: (name.toList ++ opener :: (entries ++ (types ++ ending)))) :=
    List.IsInfix.sublist
      ⟨used ++ keyword :: (name.toList ++ opener :: entries), ending, by simp⟩
  have hending : used ++ keyword :: (name.toList ++ opener :: (entries ++ (types ++ ending))) =
      (used ++ keyword :: (name.toList ++ opener :: (entries ++ types))) ++ ending := by simp
  obtain ⟨pieces, hpieces, hflat⟩ := hparams.exists_pieces
  have hflat' := hflat.trans hentries
  constructor
  case name =>
    cases name with
    | none =>
      exact hcovers.within (covers_singleton keyword) hplaced
        (List.singleton_sublist.2 (by simp))
    | some t =>
      exact hcovers.within (covers_singleton t) hplaced (List.singleton_sublist.2 (by simp))
  case named =>
    intro text htext
    obtain ⟨t, rfl, rfl⟩ := Option.map_eq_some_iff.1 htext
    exact (hplaced.standsIn t (by simp)).liesIn.text
  case params =>
    intro p hp
    obtain ⟨piece, hpiece, hpart⟩ := exists_piece hpieces hp
    have hsub := hpart.trans hflat'
    obtain ⟨hpcovers, hpnests⟩ := hpiece.nests (hplaced.sublist hsub)
    exact ⟨hcovers.within hpcovers hplaced hsub, hpnests⟩
  case inOrder =>
    exact pairwise_of_pieces hpieces (hplaced.sublist hflat') fun piece p hp hpiece =>
      (hp.nests hpiece).1
  case result =>
    obtain ⟨hrcovers, hrnests⟩ := hresult.nests (hplaced.sublist htypes)
    exact ⟨hcovers.within hrcovers hplaced htypes, hrnests⟩
  case body =>
    intro b hb
    rw [hending] at hcovers hplaced
    have hsub : ending.Sublist _ := List.sublist_append_right
      (used ++ keyword :: (name.toList ++ opener :: (entries ++ types))) ending
    cases hbody with
    | missing => cases hb
    | block hblock =>
      cases hb
      have hbcovers := hblock.covers (hplaced.sublist hsub)
      exact ⟨hcovers.within hbcovers hplaced hsub, hcovers.stop_eq hbcovers⟩

/-- An item nests if its tokens are in their places. -/
theorem ItemOf.nests {node : Item} (h : ItemOf used node) (hused : Placed text used) :
    node.Nests text := by
  have hcovers := h.covers hused
  cases h with
  | comptime => trivial
  | @test keyword name used body _ _ hblock =>
    have hsub := sublist_rest keyword name.toList used
    exact hcovers.within (hblock.covers (hused.sublist hsub)) hused hsub
  | fn _ hf => exact hf.nests hcovers hused
  | @var used more v _ hv =>
    obtain ⟨-, -, htype, -, -⟩ := hv
    rename_i keyword name semicolon annotation run type
    intro e he
    cases htype with
    | none => cases he
    | @typed colon used' e' _ htype =>
      obtain rfl : e' = e := Option.some.inj he
      have hsub : used'.Sublist (used ++
          keyword :: name :: (colon :: used' ++ (run ++ [semicolon]))) :=
        List.IsInfix.sublist ⟨used ++ [keyword, name, colon], run ++ [semicolon], by simp⟩
      obtain ⟨hecovers, henests⟩ := htype.nests (hused.sublist hsub)
      exact ⟨hcovers.within hecovers hused hsub, henests⟩

end Grammar

open Grammar

/-- The items of a parse are spelled by pieces of the tokens, in order. -/
theorem exists_pieces_of_itemsWithin (stop fuel : Nat) (tokens : List Token) :
    ∃ pieces, List.Forall₂ ItemOf pieces (itemsWithin stop fuel tokens).items ∧
      pieces.flatten.Sublist tokens := by
  induction fuel generalizing tokens with
  | zero => exact ⟨[], .nil, List.nil_sublist _⟩
  | succ fuel ih =>
    cases tokens with
    | nil => exact ⟨[], .nil, List.nil_sublist _⟩
    | cons t ts =>
      rw [itemsWithin]
      cases hitem : item stop (t :: ts) with
      | failed e names => exact ⟨[], .nil, List.nil_sublist _⟩
      | done node names rest =>
        obtain ⟨used, hused, hnode, -⟩ := Reader.item_reads.1 hitem
        obtain ⟨pieces, hpieces, hsub⟩ := ih rest
        refine ⟨used :: pieces, .cons hnode hpieces, ?_⟩
        rw [List.flatten_cons, hused]
        exact hsub.append_left used

theorem Grammar.placed_of_lex {text : String} {tokens : List Token} (h : lex text = .ok tokens) :
    Placed text tokens := by
  have hmunched := munched_of_lexFrom 0 text.toList
  rw [lex] at h
  rw [h] at hmunched
  have horder := (lexFrom_eq_ok.1 h).inOrder
  exact ⟨hmunched.standsIn, fun t ht => (horder.1 t ht).2, horder.2⟩

/-- The items of a text are spelled by pieces of tokens that stand in the text, in order. -/
theorem exists_pieces_of_parse (text : String) :
    ∃ pieces, List.Forall₂ ItemOf pieces (parse text).items ∧ Placed text pieces.flatten := by
  rw [parse]
  cases hlex : lex text with
  | error e => exact ⟨[], .nil, by simp, by simp, .nil⟩
  | ok tokens =>
    obtain ⟨pieces, hpieces, hsub⟩ :=
      exists_pieces_of_itemsWithin text.utf8ByteSize tokens.length tokens
    exact ⟨pieces, hpieces, (placed_of_lex hlex).sublist hsub⟩

/-- Every item of a text covers some of it, and the items follow one another. In each item the
parts that have spans lie in it, and in what they are parts of; parameters follow one another, and
a body ends where its function does. Where a name stands in the tree, the text has that name, and
it is what any table of names gives back for it after the parse. -/
theorem parse_nests (text : String) :
    (∀ node ∈ (parse text).items, node.span.Within ⟨0, (bytesOf text).length⟩ ∧
      node.Nests text) ∧
    ((parse text).items.Pairwise fun a b => a.span.stop ≤ b.span.start) ∧
    ∀ node ∈ (parse text).items, ∀ name ∈ node.names, ∀ (names : Interner) (later : List String),
      ((names.internAll (parse text).names).internAll later).lookup?
        ((names.internAll (parse text).names).nameOf name) = some name := by
  obtain ⟨pieces, hpieces, hplaced⟩ := exists_pieces_of_parse text
  refine ⟨fun node hnode => ?_, ?_, fun node hnode name hname names later => ?_⟩
  · obtain ⟨piece, hpiece, hsub⟩ := exists_piece hpieces hnode
    have hpart := hplaced.sublist hsub
    have hcovers := hpiece.covers hpart
    refine ⟨?_, hpiece.nests hpart⟩
    have hself := hcovers.within hcovers hpart (List.Sublist.refl _)
    obtain ⟨first, last, -, hlast, hspan⟩ := hcovers
    refine ⟨hself.start_lt_stop, Nat.zero_le _, ?_⟩
    rw [hspan]
    exact (hpart.standsIn last (List.mem_of_getLast? hlast)).liesIn.span.stop_le
  · exact pairwise_of_pieces hpieces hplaced fun piece node hnode => hnode.covers
  · obtain ⟨-, -, -, -, -, -, -, -, hnames⟩ := exists_spelling hnode
    have hknows : (names.internAll (parse text).names).Knows name :=
      Interner.knows_internAll (hnames name hname)
    have hsame : ((names.internAll (parse text).names).internAll later).nameOf name =
        (names.internAll (parse text).names).nameOf name := Interner.nameOf_internAll hknows
    rw [← hsame]
    exact Interner.lookup?_nameOf hknows.internAll

end IncrementalBuild
