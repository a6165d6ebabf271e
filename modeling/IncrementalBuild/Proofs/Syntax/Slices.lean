import IncrementalBuild.Proofs.Source.Names
import IncrementalBuild.Proofs.Syntax.Acceptance
import IncrementalBuild.Proofs.Syntax.Extents
import IncrementalBuild.Session.Changes

/-!
# The bytes of an item tell what it is

The text of an item, cut out of its file, is lexed to the tokens of the item and parsed to
the item, moved to the start. So items of two files with equal bytes are one item in two
places, and what the diff leaves alone means what the new revision says.
-/

set_option autoImplicit false

namespace IncrementalBuild

open Grammar

theorem Lexes.grammar_inOrder {o : Nat} {cs : List Char} {tokens : List Token}
    (h : Lexes o cs tokens) : Grammar.InOrder tokens :=
  ⟨fun t ht => Nat.le_of_lt (h.inOrder.1 t ht).2, h.inOrder.2⟩

/-- A text has one list of tokens. -/
theorem Lexes.unique {o : Nat} {cs : List Char} {tokens tokens' : List Token}
    (h : Lexes o cs tokens) (h' : Lexes o cs tokens') : tokens = tokens' := by
  have heq := lexFrom_eq_ok.2 h
  rw [lexFrom_eq_ok.2 h'] at heq
  exact (Except.ok.inj heq).symm

/-- Tokens spell one item. -/
theorem Grammar.ItemOf.unique {used : List Token} {node node' : Item} (h : ItemOf used node)
    (h' : ItemOf used node') : node = node' := by
  have heq : used ++ [] = used ++ [] := rfl
  exact (h.head_unique h' heq).2.1

/-- An item among the tokens of a text is cut out between characters, and its tokens are those
of the characters it covers. -/
theorem Lexes.exists_piece {o : Nat} {cs : List Char} {before used after : List Token}
    {node : Item} (h : Lexes o cs (before ++ (used ++ after))) (hitem : ItemOf used node) :
    ∃ u piece v, cs = u ++ (piece ++ v) ∧
      node.span = ⟨o + utf8Length u, o + utf8Length u + utf8Length piece⟩ ∧
      Lexes (o + utf8Length u) piece used := by
  obtain ⟨first, last, hfirst, hlast, hkind, hspan⟩ :=
    hitem.span_eq h.grammar_inOrder.of_append.2.of_append.1
  obtain ⟨rest, rfl⟩ := List.head?_eq_some_iff.1 hfirst
  obtain ⟨u, w, rfl, hstart, hw⟩ := h.cut_before
  obtain ⟨init, hinit⟩ := List.getLast?_eq_some_iff.1 hlast
  change Lexes _ w ((first :: rest) ++ after) at hw
  rw [hinit, List.append_assoc] at hw
  obtain ⟨piece, v, rfl, hstop, hpiece, -⟩ := hw.cut_after hkind
  rw [← hinit] at hpiece
  exact ⟨u, piece, v, rfl, by rw [hspan, hstart, hstop], hpiece⟩

/-- Moved to the start, the tokens of an item spell the item moved to the start. -/
theorem Lexes.parse_piece {o : Nat} {piece : List Char} {used : List Token} {node : Item}
    (h : Lexes o piece used) (hitem : ItemOf used node) :
    parse (String.ofList piece) =
      { items := [node.moved (· - o)], error := none, names := node.names } ∧
    (node.moved (· - o)).moved (· + o) = node := by
  have hback : Monotone fun n => n - o := fun _ _ hle => Nat.sub_le_sub_right hle o
  have hforth : Monotone fun n => n + o := fun _ _ hle => Nat.add_le_add_right hle o
  have hstart : Lexes 0 piece (used.map (Token.moved (· - o))) := h.moved fun n => by omega
  have hitem' : ItemOf (used.map (Token.moved (· - o))) (node.moved (· - o)) := hitem.moved hback
  constructor
  · rw [parse, lex, String.toList_ofList, lexFrom_eq_ok.2 hstart]
    dsimp only
    rw [itemsOf_of_itemOf hitem', Item.names_moved]
  · have hagain : Lexes o piece ((used.map (Token.moved (· - o))).map (Token.moved (· + o))) :=
      hstart.moved fun n => by omega
    have htokens := hagain.unique h
    have hitem'' := hitem'.moved hforth
    rw [htokens] at hitem''
    exact hitem''.unique hitem

/-- An item of a text is spelled by the tokens of a part of the text, which its span covers. -/
theorem exists_spelling {text : String} {node : Item} (h : node ∈ (parse text).items) :
    ∃ u piece v used, text.toList = u ++ (piece ++ v) ∧
      node.span = ⟨utf8Length u, utf8Length u + utf8Length piece⟩ ∧
      Lexes (utf8Length u) piece used ∧ ItemOf used node ∧
      ∀ name ∈ node.names, name ∈ (parse text).names := by
  rw [parse, lex] at h ⊢
  cases hlex : lexFrom 0 text.toList with
  | error e => simp [hlex] at h
  | ok tokens =>
    rw [hlex] at h
    obtain ⟨before, used, after, rfl, hitem, hnames⟩ := exists_of_mem_itemsWithin h
    obtain ⟨u, piece, v, htext, hspan, hpiece⟩ := (lexFrom_eq_ok.1 hlex).exists_piece hitem
    simp only [Nat.zero_add] at hspan hpiece
    exact ⟨u, piece, v, used, htext, hspan, hpiece, hitem, hnames⟩

/-- The bytes of an item of a text are those of a text of its own, which is parsed to that item
alone, moved to the start, and whose names are all known from the whole. -/
theorem exists_parse_slice {text : String} {node : Item} (h : node ∈ (parse text).items) :
    ∃ piece, decode ⟨(slice (bytesOf text) node.span).toArray⟩ = .ok piece ∧
      parse piece = { items := [node.moved (· - node.span.start)], error := none,
                      names := node.names } ∧
      (node.moved (· - node.span.start)).moved (· + node.span.start) = node ∧
      ∀ name ∈ node.names, name ∈ (parse text).names := by
  obtain ⟨u, piece, v, used, htext, hspan, hpiece, hitem, hnames⟩ := exists_spelling h
  have hslice : slice (bytesOf text) node.span = bytesOf (String.ofList piece) := by
    rw [bytesOf, htext, hspan, slice_utf8, bytesOf_ofList]
  obtain ⟨hparse, hback⟩ := hpiece.parse_piece hitem
  refine ⟨String.ofList piece, ?_, ?_, ?_, hnames⟩
  · rw [hslice, decode_bytesOf]
  · rw [hparse, hspan]
  · rw [hspan]
    exact hback

/-! ## Functions with equal bytes -/

/-- A span inside of another covers the same bytes of the bytes that one covers. -/
theorem slice_slice {bytes : Bytes} {s inner : Span} (hstart : s.start ≤ inner.start)
    (hstop : inner.stop ≤ s.stop) (hs : s.stop ≤ bytes.length) :
    slice (slice bytes s) (inner.moved (· - s.start)) = slice bytes inner := by
  by_cases hinner : inner.start ≤ inner.stop
  · have houter : slice bytes s = (bytes.drop s.start).take (s.stop - s.start) :=
      if_pos ⟨by omega, hs⟩
    have hlen : (slice bytes s).length = s.stop - s.start := by
      rw [houter, List.length_take, List.length_drop]
      omega
    have hright : slice bytes inner =
        (bytes.drop inner.start).take (inner.stop - inner.start) := if_pos ⟨hinner, by omega⟩
    have hmiddle : s.start + (inner.start - s.start) = inner.start := by omega
    have hshort : min (inner.stop - s.start - (inner.start - s.start))
        (s.stop - s.start - (inner.start - s.start)) = inner.stop - inner.start := by omega
    rw [slice, if_pos (by rw [hlen]; simp only [Span.moved]; omega), houter, hright]
    simp only [Span.moved]
    rw [List.drop_take, List.drop_drop, List.take_take, hmiddle, hshort]
  · have hright : slice bytes inner = [] := if_neg fun hvalid => hinner hvalid.1
    rw [hright, slice]
    split
    · rename_i hvalid
      simp only [Span.moved] at hvalid ⊢
      have hzero : inner.stop - s.start - (inner.start - s.start) = 0 := by omega
      rw [hzero, List.take_zero]
    · rfl

/-- Two functions in two texts are one function in two places: they are one item, moved, and
their bodies have the same bytes. -/
structure FunctionItem.SameIn (text : String) (f : FunctionItem) (text' : String)
    (f' : FunctionItem) : Prop where
  moved : ∃ g : FunctionItem, g.moved (· + f.span.start) = f ∧ g.moved (· + f'.span.start) = f'
  body : f.body.map (slice (bytesOf text)) = f'.body.map (slice (bytesOf text'))

theorem FunctionItem.SameIn.symm {text text' : String} {f f' : FunctionItem}
    (h : SameIn text f text' f') : SameIn text' f' text f := by
  obtain ⟨⟨g, hg, hg'⟩, hbody⟩ := h
  exact ⟨⟨g, hg', hg⟩, hbody.symm⟩

theorem Grammar.Function.body_le {m : Modifiers} {used : List Token} {f : FunctionItem}
    (h : Function m used f) {b : Span} (hb : b ∈ f.body) :
    f.span.start ≤ b.start ∧ b.stop ≤ f.span.stop := by
  obtain ⟨_, _, _, _, _, hbody⟩ := h
  cases hbody with
  | missing => cases hb
  | block =>
    cases hb
    exact ⟨Nat.min_le_right .., Nat.le_max_right ..⟩

/-- The bytes of the body of a function are found in the bytes of the function. -/
theorem FunctionItem.slice_body {text : String} {f : FunctionItem}
    (h : .function f ∈ (parse text).items) :
    f.body.map (slice (bytesOf text)) =
      (f.moved (· - f.span.start)).body.map (slice (slice (bytesOf text) f.span)) := by
  obtain ⟨u, piece, v, used, htext, hspan, -, hitem, -⟩ := exists_spelling h
  have hlen : f.span.stop ≤ (bytesOf text).length := by
    rw [bytesOf, htext, ← utf8Length_eq, utf8Length_append, utf8Length_append]
    rw [Item.span] at hspan
    rw [hspan]
    dsimp only
    omega
  rw [FunctionItem.moved, Option.map_map]
  refine Option.map_congr fun b hb => ?_
  cases hitem with
  | fn _ hf =>
    obtain ⟨hstart, hstop⟩ := hf.body_le hb
    exact (slice_slice hstart hstop hlen).symm

/-- Functions with equal bytes are one function in two places. -/
theorem FunctionItem.sameIn_of_slice_eq {text text' : String} {f f' : FunctionItem}
    (hf : .function f ∈ (parse text).items) (hf' : .function f' ∈ (parse text').items)
    (h : slice (bytesOf text) f.span = slice (bytesOf text') f'.span) :
    SameIn text f text' f' := by
  obtain ⟨piece, hpiece, hparse, hback, -⟩ := exists_parse_slice hf
  obtain ⟨piece', hpiece', hparse', hback', -⟩ := exists_parse_slice hf'
  simp only [Item.span, Item.moved, Item.function.injEq] at *
  rw [h, hpiece'] at hpiece
  obtain rfl := Except.ok.inj hpiece
  rw [hparse'] at hparse
  have hsame : f'.moved (· - f'.span.start) = f.moved (· - f.span.start) := by
    simpa using congrArg Outline.items hparse
  refine ⟨⟨f.moved (· - f.span.start), hback, ?_⟩, ?_⟩
  · rw [← hsame, hback']
  · rw [slice_body hf, slice_body hf', hsame, h]

/-- The diff decides on a function whose name is live: it blocks the revision, or the live
function has the same bytes and is left alone. -/
theorem ChangePlan.ofItems_live {settings : Settings} {file : SourceFile} {stale : List Decl}
    {rest : List Item} {f : FunctionItem} {symbol : String} {live : Decl}
    (hname : f.name = some symbol) (hlive : stale.find? (·.symbol == symbol) = some live) :
    ofItems settings file stale (.function f :: rest) = blocked (.changedBody live f) ∨
      (live.bytes = slice (bytesOf file.text) f.span ∧
        ofItems settings file stale (.function f :: rest) =
          ofItems settings file (stale.filter (·.symbol != symbol)) rest) := by
  rw [ofItems, hname]
  dsimp only
  rw [hlive]
  dsimp only
  split
  · rename_i hbytes
    exact .inr ⟨hbytes, rfl⟩
  · exact .inl rfl

/-- The bytes of any item of any text are a text whose parse is that item alone, moved to the
start, without an error and without a name that is not known from the whole. So functions of
two texts with equal bytes are one function in two places, and a live declaration that the
diff leaves alone is the function the revision has. -/
theorem equal_bytes_equal_items :
    (∀ text : String, ∀ node ∈ (parse text).items,
      ∃ piece g, decode ⟨(slice (bytesOf text) node.span).toArray⟩ = .ok piece ∧
        (parse piece).items = [g] ∧ (parse piece).error = none ∧
        g = node.moved (· - node.span.start) ∧ g.moved (· + node.span.start) = node ∧
        ∀ names : Interner, (names.internAll (parse text).names).internAll (parse piece).names =
          names.internAll (parse text).names) ∧
    (∀ (text text' : String) (f f' : FunctionItem),
      .function f ∈ (parse text).items → .function f' ∈ (parse text').items →
      slice (bytesOf text) f.span = slice (bytesOf text') f'.span →
      FunctionItem.SameIn text f text' f') ∧
    (∀ (settings : Settings) (file : SourceFile) (stale : List Decl) (f : FunctionItem)
      (rest : List Item) (symbol : String) (live : Decl),
      .function live.item ∈ (parse live.file.text).items → .function f ∈ (parse file.text).items →
      f.name = some symbol → stale.find? (·.symbol == symbol) = some live →
      ChangePlan.ofItems settings file stale (.function f :: rest) =
          .blocked (.changedBody live f) ∨
        (FunctionItem.SameIn live.file.text live.item file.text f ∧
          ChangePlan.ofItems settings file stale (.function f :: rest) =
            ChangePlan.ofItems settings file (stale.filter (·.symbol != symbol)) rest)) := by
  refine ⟨?_, fun text text' f f' => FunctionItem.sameIn_of_slice_eq, ?_⟩
  · intro text node hnode
    obtain ⟨piece, hpiece, hparse, hback, hnames⟩ := exists_parse_slice hnode
    refine ⟨piece, node.moved (· - node.span.start), hpiece, by rw [hparse], by rw [hparse], rfl,
      hback, fun names => ?_⟩
    rw [hparse]
    exact Interner.internAll_of_knows fun name hname => Interner.knows_internAll (hnames name hname)
  · intro settings file stale f rest symbol live hitem hf hname hlive
    rcases ChangePlan.ofItems_live hname hlive with hblocked | ⟨hbytes, hkept⟩
    · exact .inl hblocked
    · exact .inr ⟨FunctionItem.sameIn_of_slice_eq hitem hf hbytes, hkept⟩

-- the second item of the first text is the one item of the second text, nine bytes on
example : ((parse "test {;} fn f(x: u8) void {}").items.map (·.span),
    (parse "fn f(x: u8) void {}").items.map (·.span)) = ([⟨0, 8⟩, ⟨9, 28⟩], [⟨0, 19⟩]) := by
  decide +kernel

end IncrementalBuild
