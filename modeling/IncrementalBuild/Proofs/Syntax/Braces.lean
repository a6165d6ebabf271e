import IncrementalBuild.Proofs.Syntax.Nesting
import IncrementalBuild.Session.Analysis

/-!
# What stands between braces

A block is recorded as the bytes from its opening brace to the closing brace that matches it. The
body of a function and that of a test are blocks. An item that runs at build time is recorded with
its keyword: between that and its block there may be blanks and comments of any length.
-/

set_option autoImplicit false

namespace IncrementalBuild

open Grammar

/-! ## Two tokens of a text -/

theorem exists_append_of_utf8Length_le {a b c d : List Char} (h : a ++ b = c ++ d)
    (hlength : utf8Length a ≤ utf8Length c) : ∃ e, c = a ++ e ∧ b = e ++ d := by
  rcases List.append_eq_append_iff.1 h with ⟨e, hc, hb⟩ | ⟨e, rfl, rfl⟩
  · exact ⟨e, hc, hb⟩
  · cases e with
    | nil => exact ⟨[], by simp, rfl⟩
    | cons x e =>
      have hpos := utf8Length_cons_pos x e
      rw [utf8Length_append] at hlength
      omega

theorem Span.merge_of_le {s t : Span} (hstart : s.start ≤ t.start) (hstop : s.stop ≤ t.stop) :
    s.merge t = ⟨s.start, t.stop⟩ := by
  rw [merge, Nat.min_eq_left hstart, Nat.max_eq_right hstop]

theorem utf8ByteSize_ofList (cs : List Char) : (String.ofList cs).utf8ByteSize = utf8Length cs := by
  rw [← utf8Length_toList, String.toList_ofList]

/-- A token that ends where another starts, or before, stands in the text before it. -/
theorem Token.StandsIn.exists_gap {t u : Token} {text : List Char} (ht : t.StandsIn 0 text)
    (hu : u.StandsIn 0 text) (h : t.span.stop ≤ u.span.start) :
    ∃ before gap after, text = before ++ (t.text.toList ++ (gap ++ (u.text.toList ++ after))) ∧
      t.span.start = utf8Length before ∧
      u.span.start = utf8Length before + utf8Length t.text.toList + utf8Length gap ∧
      u.span.stop = u.span.start + utf8Length u.text.toList := by
  obtain ⟨before, rest, htext, htspan, -⟩ := ht.place
  obtain ⟨before', after, htext', huspan, -⟩ := hu.place
  simp only [Nat.zero_add] at htspan huspan
  rw [htspan, huspan] at h
  rw [htext, ← List.append_assoc] at htext'
  obtain ⟨gap, rfl, rfl⟩ := exists_append_of_utf8Length_le htext'
    (by rwa [utf8Length_append])
  refine ⟨before, gap, after, htext, congrArg Span.start htspan, ?_, ?_⟩
  · rw [huspan, utf8Length_append, utf8Length_append]
  · rw [huspan]

/-- Between two tokens of a text that follow one another there are only blanks and comments. -/
theorem Spaced.exists_blank {start : Nat} {text : List Char} {t u : Token}
    {before after : List Token} (h : Spaced start text (before ++ t :: u :: after)) :
    ∃ head blank rest, text = head ++ (t.text.toList ++ (blank ++ (u.text.toList ++ rest))) ∧
      (Pattern.many .gap).Matches blank ∧ t.span.start = start + utf8Length head ∧
      u.span.start = t.span.start + utf8Length t.text.toList + utf8Length blank := by
  generalize htokens : before ++ t :: u :: after = tokens at h
  induction h generalizing before with
  | last => simp at htokens
  | @token start blank rest first tokens hblank hspan hrest ih =>
    cases before with
    | nil =>
      obtain ⟨rfl, rfl⟩ := List.cons.inj htokens
      cases hrest with
      | token hgap hnext _ =>
        refine ⟨blank, _, _, rfl, hgap, congrArg Span.start hspan, ?_⟩
        rw [hnext, hspan]
    | cons first' before =>
      obtain ⟨rfl, hmore⟩ := List.cons.inj htokens
      obtain ⟨head, gap, rest, rfl, hgap, hstart, hnext⟩ := ih hmore
      refine ⟨blank ++ (first'.text.toList ++ head), gap, rest, by simp, hgap, ?_, hnext⟩
      rw [hstart, hspan, utf8Length_append, utf8Length_append]
      dsimp only
      omega

/-! ## Blocks -/

/-- A span of a text is a block: it reaches from an opening brace to the closing brace that matches
it, and `inner` is what stands strictly between the two. -/
structure Span.Encloses (block : Span) (text inner : String) : Prop where
  place : ∃ before after, text.toList = before ++ '{' :: (inner.toList ++ '}' :: after) ∧
    block = ⟨utf8Length before, utf8Length before + 1 + inner.utf8ByteSize + 1⟩
  matched : ∃ before opener run closer after,
    lex text = .ok (before ++ opener :: (run ++ closer :: after)) ∧
    opener.kind = .leftBrace ∧ Balanced run ∧ closer.kind = .rightBrace ∧
    block = ⟨opener.span.start, closer.span.stop⟩

/-- An item of a text that runs at build time: its keyword, blanks and comments, and its block. -/
structure Span.RunsAtBuild (item : Span) (text gap : String) (block : Span) : Prop where
  place : ∃ before after,
    text.toList = before ++ (comptimeName.toList ++ (gap.toList ++ '{' :: after)) ∧
    item.start = utf8Length before ∧
    block.start = utf8Length before + comptimeName.utf8ByteSize + gap.utf8ByteSize
  blank : (Pattern.many .gap).Matches gap.toList
  stop : item.stop = block.stop

/-- What is taken of a span that starts and ends with a character of one byte. -/
theorem innerSource_between {file : SourceFile} {before inner after : List Char} {c d : Char}
    (htext : file.text.toList = before ++ c :: (inner ++ d :: after)) (hc : c.utf8Size = 1) :
    innerSource file ⟨utf8Length before, utf8Length before + 1 + utf8Length inner + 1⟩ =
      String.ofList inner := by
  have hslice := slice_utf8 (before ++ [c]) inner (d :: after)
  rw [utf8Length_append, utf8Length_singleton, hc, List.append_assoc, List.singleton_append,
    ← htext] at hslice
  unfold innerSource
  dsimp only
  rw [Nat.add_sub_cancel, bytesOf, hslice, ← bytesOf_ofList, decode_bytesOf]
  rfl

/-- Without its first and its last byte, a block is what stands between its braces. -/
theorem Span.Encloses.innerSource_eq {block : Span} {inner : String} {file : SourceFile}
    (h : block.Encloses file.text inner) : innerSource file block = inner := by
  obtain ⟨before, after, htext, rfl⟩ := h.place
  rw [← utf8Length_toList, innerSource_between htext rfl, String.ofList_toList]

/-- Without its first and its last byte, an item that runs at build time is its keyword but for the
first letter, the gap, and its block but for the closing brace. -/
theorem Span.RunsAtBuild.innerSource_eq {item block : Span} {gap inner : String} {file : SourceFile}
    (h : item.RunsAtBuild file.text gap block) (hblock : block.Encloses file.text inner) :
    innerSource file item = "omptime" ++ gap ++ "\x7b" ++ inner := by
  obtain ⟨⟨before, rest, htext, hstart, hblockStart⟩, -, hstop⟩ := h
  obtain ⟨before', after, htext', rfl⟩ := hblock.place
  dsimp only at hblockStart hstop
  have hsize : utf8Length comptimeName.toList = comptimeName.utf8ByteSize := utf8Length_toList _
  obtain ⟨rfl, hrest⟩ : before' = before ++ (comptimeName.toList ++ gap.toList) ∧
      '{' :: (inner.toList ++ '}' :: after) = '{' :: rest := by
    refine append_inj_of_utf8Length ?_ ?_
    · rw [← htext', htext]
      simp
    · rw [hblockStart, utf8Length_append, utf8Length_append, hsize, utf8Length_toList,
        Nat.add_assoc]
  have hkeyword : comptimeName.toList = 'c' :: "omptime".toList := rfl
  have hinner : file.text.toList =
      before ++ 'c' :: (("omptime" ++ gap ++ "\x7b" ++ inner).toList ++ '}' :: after) := by
    rw [htext', hkeyword]
    simp
  have hitem : item = ⟨utf8Length before, utf8Length before + 1 +
      utf8Length ("omptime" ++ gap ++ "\x7b" ++ inner).toList + 1⟩ := by
    have hlong : comptimeName.utf8ByteSize = 8 := rfl
    have hshort : utf8Length "omptime".toList = 7 := rfl
    have hbrace : utf8Length "\x7b".toList = 1 := rfl
    rw [← hstart]
    cases item with
    | mk start stop =>
      dsimp only at hstart hstop
      simp only [String.toList_append, utf8Length_append, utf8Length_toList]
        at hstop hshort hbrace ⊢
      rw [Span.mk.injEq]
      omega
  rw [hitem, innerSource_between hinner rfl, String.ofList_toList]

/-! ## Items -/

namespace Grammar

variable {text : String} {before used after tokens : List Token} {node : Item} {block : Span}

theorem spaced_of_lex (h : lex text = .ok tokens) : Spaced 0 text.toList tokens := by
  have hmunched := munched_of_lexFrom 0 text.toList
  rw [lex] at h
  rw [h] at hmunched
  exact hmunched.spaced

/-- An item of a text is spelled by some of its tokens, one after another. -/
theorem exists_tokens_of_item (h : node ∈ (parse text).items) :
    ∃ before used after, lex text = .ok (before ++ (used ++ after)) ∧ ItemOf used node := by
  rw [parse] at h
  cases hlex : lex text with
  | error e => simp [hlex] at h
  | ok tokens =>
    rw [hlex] at h
    obtain ⟨before, used, after, rfl, hitem, -⟩ := exists_of_mem_itemsWithin h
    exact ⟨before, used, after, rfl, hitem⟩

theorem Block.kind_of_head (h : Block used block) : ∀ t ∈ used.head?, t.kind = .leftBrace := by
  obtain ⟨hopener, -, -⟩ := h
  intro t ht
  rwa [← Option.some.inj ht]

/-- What tokens of a text spell as a block is one. -/
theorem Block.encloses (h : Block used block) (hlex : lex text = .ok (before ++ (used ++ after))) :
    ∃ inner, block.Encloses text inner := by
  have hplaced := (placed_of_lex hlex).sublist
    ((List.sublist_append_left used after).trans (List.sublist_append_right before _))
  obtain ⟨hopener, hrun, hcloser⟩ := h
  rename_i opener closer run
  have hmem : closer ∈ run ++ [closer] := List.mem_append_right _ (List.mem_singleton_self _)
  have hapart := (List.pairwise_cons.1 hplaced.stop_le_start).1 closer hmem
  have hfirst := hplaced.standsIn opener (List.mem_cons_self ..)
  have hlast := hplaced.standsIn closer (List.mem_cons_of_mem _ hmem)
  obtain ⟨hle, hle'⟩ := hplaced.inOrder.first_le rfl (List.mem_cons_of_mem _ hmem)
  have hspan := Span.merge_of_le hle hle'
  obtain ⟨u, inner, v, htext, hstart, hnext, hstop⟩ := hfirst.exists_gap hlast hapart
  rw [(hfirst.spelled .leftBrace _ rfl).1 hopener] at htext hnext
  rw [(hlast.spelled .rightBrace _ rfl).1 hcloser] at htext hstop
  refine ⟨String.ofList inner, ⟨u, v, ?_, ?_⟩, before, opener, run, closer, after, ?_, hopener,
    hrun, hcloser, hspan⟩
  · rw [String.toList_ofList]
    exact htext
  · rw [hspan, hstop, hnext, hstart, utf8ByteSize_ofList]
    rfl
  · rw [hlex]
    simp

/-- An item that runs at build time is its keyword, blanks and comments, and a block. -/
theorem ItemOf.runsAtBuild {item : Span} (h : ItemOf used (.comptime item))
    (hlex : lex text = .ok (before ++ (used ++ after))) :
    ∃ gap block inner, item.RunsAtBuild text gap block ∧ block.Encloses text inner := by
  have hspaced := spaced_of_lex hlex
  have hplaced := (placed_of_lex hlex).sublist
    ((List.sublist_append_left used after).trans (List.sublist_append_right before _))
  cases h with
  | @comptime keyword used block hkeyword hblock =>
    have hlex' : lex text = .ok (before ++ [keyword] ++ (used ++ after)) := by
      rw [hlex]
      simp
    obtain ⟨inner, hencloses⟩ := hblock.encloses hlex'
    have hopener := hblock.kind_of_head
    obtain ⟨opener, closer, hfirst, hlast, rfl⟩ :=
      hblock.covers (hplaced.sublist (List.sublist_cons_self keyword used))
    obtain ⟨rest, rfl⟩ := List.head?_eq_some_iff.1 hfirst
    obtain ⟨u, gap, v, htext, hblank, hstart, hnext⟩ := hspaced.exists_blank
    have hmem := List.mem_cons_of_mem keyword (List.mem_of_getLast? hlast)
    have hspan := Span.merge_of_le (t := ⟨opener.span.start, closer.span.stop⟩)
      (hplaced.inOrder.first_le rfl (List.mem_cons_of_mem _ (List.mem_cons_self ..))).1
      (hplaced.inOrder.first_le rfl hmem).2
    have hword := hplaced.standsIn keyword (List.mem_cons_self ..)
    have hbrace := hplaced.standsIn opener (List.mem_cons_of_mem _ (List.mem_cons_self ..))
    rw [(hword.spelled .comptimeKeyword _ rfl).1 hkeyword] at htext hnext
    rw [(hbrace.spelled .leftBrace _ rfl).1 (hopener opener rfl)] at htext
    rw [Nat.zero_add] at hstart
    refine ⟨String.ofList gap, _, inner, ⟨⟨u, v, ?_, ?_, ?_⟩, ?_, ?_⟩, hencloses⟩
    · rw [String.toList_ofList]
      exact htext
    · rw [hspan]
      exact hstart
    · rw [utf8ByteSize_ofList, ← hstart]
      exact hnext
    · rwa [String.toList_ofList]
    · rw [hspan]

/-- The body of a function is a block. -/
theorem ItemOf.encloses_body {f : FunctionItem} (h : ItemOf used (.function f))
    (hbody : f.body = some block) (hlex : lex text = .ok (before ++ (used ++ after))) :
    ∃ inner, block.Encloses text inner := by
  cases h with
  | @fn modifiers more _ hmodified hfunction =>
    obtain ⟨-, -, -, -, -, hending⟩ := hfunction
    rename_i keyword opener name params result ending _ _ _ _
    cases hbody
    cases hending with
    | block hblock =>
      have hlex' : lex text = .ok ((before ++ modifiers ++ keyword ::
          (name.toList ++ opener :: (params ++ result))) ++ (ending ++ after)) := by
        rw [hlex]
        simp
      exact hblock.encloses hlex'

end Grammar

/-- The body of a function of a text is a block. -/
theorem exists_inner_of_body {text : String} {f : FunctionItem} {block : Span}
    (h : .function f ∈ (parse text).items) (hbody : f.body = some block) :
    ∃ inner, block.Encloses text inner := by
  obtain ⟨before, used, after, hlex, hitem⟩ := exists_tokens_of_item h
  exact hitem.encloses_body hbody hlex

/-- An item of a text that runs at build time has a block. -/
theorem exists_block_of_comptime {text : String} {item : Span}
    (h : .comptime item ∈ (parse text).items) :
    ∃ gap block inner, item.RunsAtBuild text gap block ∧ block.Encloses text inner := by
  obtain ⟨before, used, after, hlex, hitem⟩ := exists_tokens_of_item h
  exact hitem.runsAtBuild hlex

end IncrementalBuild
