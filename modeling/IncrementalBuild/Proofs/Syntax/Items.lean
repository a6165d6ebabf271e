import IncrementalBuild.Proofs.Syntax.Types

set_option autoImplicit false

namespace IncrementalBuild

/-! ## Modifiers -/

namespace Modifiers

open Grammar

variable {m found : Modifiers} {t : Token} {kind : TokenKind} {used tokens rest : List Token}

/-- The kinds of token that are modifiers. -/
def kinds : List TokenKind := [.pubKeyword, .exportKeyword, .externKeyword]

/-- Whether the modifier of a kind is among those in `m`. -/
def hasKind (m : Modifiers) : TokenKind → Bool
  | .pubKeyword => m.isPublic
  | .exportKeyword => m.isExport
  | .externKeyword => m.isExtern
  | _ => false

/-- The modifiers `m` and one more. -/
def withToken (m : Modifiers) (t : Token) : Modifiers where
  start := some (m.start.getD t.span)
  isPublic := m.isPublic || t.kind = .pubKeyword
  isExport := m.isExport || t.kind = .exportKeyword
  isExtern := m.isExtern || t.kind = .externKeyword

theorem hasKind_withToken (hkind : kind ∈ kinds) :
    (m.withToken t).hasKind kind = (m.hasKind kind || t.kind = kind) := by
  simp only [kinds, List.mem_cons, List.not_mem_nil, or_false] at hkind
  rcases hkind with rfl | rfl | rfl <;> rfl

theorem read_modifier (hkind : t.kind ∈ kinds) :
    modifiers m (t :: rest) =
      if m.hasKind t.kind = true then
        .error { cause := .duplicateModifier t.kind, span := t.span }
      else modifiers (m.withToken t) rest := by
  simp only [kinds, List.mem_cons, List.not_mem_nil, or_false] at hkind
  rcases hkind with hkind | hkind | hkind <;>
    simp [modifiers, withToken, hasKind, hkind]

theorem read_other (hkind : t.kind ∉ kinds) : modifiers m (t :: rest) = .ok (m, t :: rest) := by
  simp only [kinds, List.mem_cons, List.not_mem_nil, or_false, not_or] at hkind
  rw [modifiers.eq_def]
  dsimp only
  split
  · exact absurd ‹_› hkind.1
  · exact absurd ‹_› hkind.2.1
  · exact absurd ‹_› hkind.2.2
  · rfl

/-- A modifier and others can be added if it can and they can be added to it. -/
theorem fresh_cons :
    (Modified (t :: used) ∧ ∀ u ∈ t :: used, m.hasKind u.kind = false) ↔
      t.kind ∈ kinds ∧ m.hasKind t.kind = false ∧ Modified used ∧
        ∀ u ∈ used, (m.withToken t).hasKind u.kind = false := by
  constructor
  · rintro ⟨⟨hmodifier, hnodup⟩, hfresh⟩
    obtain ⟨ht, hused⟩ := List.forall_mem_cons.1 hmodifier
    obtain ⟨htfresh, hfresh⟩ := List.forall_mem_cons.1 hfresh
    obtain ⟨hnotin, hnodup⟩ := List.nodup_cons.1 hnodup
    refine ⟨ht, htfresh, ⟨hused, hnodup⟩, fun u hu => ?_⟩
    have hne : t.kind ≠ u.kind := fun heq => hnotin (List.mem_map.2 ⟨u, hu, heq.symm⟩)
    rw [hasKind_withToken (hused u hu), hfresh u hu, decide_eq_false hne, Bool.or_false]
  · rintro ⟨ht, htfresh, ⟨hused, hnodup⟩, hfresh⟩
    have hsplit : ∀ u ∈ used, m.hasKind u.kind = false ∧ t.kind ≠ u.kind := by
      intro u hu
      have hu' := hfresh u hu
      rw [hasKind_withToken (hused u hu), Bool.or_eq_false_iff] at hu'
      exact ⟨hu'.1, of_decide_eq_false hu'.2⟩
    refine ⟨⟨List.forall_mem_cons.2 ⟨ht, hused⟩, List.nodup_cons.2 ⟨?_, hnodup⟩⟩,
      List.forall_mem_cons.2 ⟨htfresh, fun u hu => (hsplit u hu).1⟩⟩
    intro hmem
    obtain ⟨u, hu, heq⟩ := List.mem_map.1 hmem
    exact (hsplit u hu).2 heq.symm

/-- Modifiers that are not among those in `m` come before what is none. -/
theorem read_eq_ok :
    modifiers m tokens = .ok (found, rest) ↔
      ∃ used, tokens = used ++ rest ∧ (Modified used ∧ ∀ t ∈ used, m.hasKind t.kind = false) ∧
        found = used.foldl withToken m ∧ ∀ t ∈ rest.head?, t.kind ∉ kinds := by
  constructor
  · intro h
    induction tokens generalizing m with
    | nil =>
      cases h
      exact ⟨[], rfl, ⟨⟨by simp, by simp⟩, by simp⟩, rfl, by simp⟩
    | cons t tokens ih =>
      by_cases hkind : t.kind ∈ kinds
      · rw [read_modifier hkind] at h
        split at h
        · cases h
        · rename_i hfree
          obtain ⟨used, rfl, ⟨hused, hfresh⟩, rfl, hhead⟩ := ih h
          rw [Bool.not_eq_true] at hfree
          exact ⟨t :: used, rfl, fresh_cons.2 ⟨hkind, hfree, hused, hfresh⟩, rfl, hhead⟩
      · rw [read_other hkind] at h
        cases h
        exact ⟨[], rfl, ⟨⟨by simp, by simp⟩, by simp⟩, rfl, by simpa using hkind⟩
  · rintro ⟨used, rfl, hused, rfl, hhead⟩
    induction used generalizing m with
    | nil =>
      cases rest with
      | nil => rfl
      | cons t rest => exact read_other (hhead t rfl)
    | cons t used ih =>
      obtain ⟨hkind, hfree, hused, hfresh⟩ := fresh_cons.1 hused
      rw [List.cons_append, read_modifier hkind, hfree]
      exact ih ⟨hused, hfresh⟩

/-- What modifiers say is what they add to none. -/
theorem foldl_withToken : used.foldl withToken {} = modifiersOf used := by
  have hfold : ∀ m : Modifiers, used.foldl withToken m =
      { start := m.start.or (modifiersOf used).start
        isPublic := m.isPublic || (modifiersOf used).isPublic
        isExport := m.isExport || (modifiersOf used).isExport
        isExtern := m.isExtern || (modifiersOf used).isExtern } := by
    induction used with
    | nil => simp [modifiersOf, has]
    | cons t used ih =>
      intro m
      rw [List.foldl_cons, ih]
      cases hstart : m.start <;> simp [modifiersOf, has, withToken, hstart, Bool.or_assoc]
  simpa using hfold {}

end Modifiers

namespace Reader

open Grammar

variable {stop : Nat} {tokens rest used : List Token} {names : List String}

/-- Modifiers are read up to what is none. -/
theorem modifiers_bind_eq_done {β : Type} {f : Modifiers → Reader β} {b : β} :
    (ofTokens (modifiers {}) >>= f) stop tokens = .done b names rest ↔
      ∃ used more, tokens = used ++ more ∧ Modified used ∧
        (∀ t ∈ more.head?, t.kind ∉ Modifiers.kinds) ∧
        f (modifiersOf used) stop more = .done b names rest := by
  rw [ofTokens_bind_eq_done]
  simp only [Modifiers.read_eq_ok]
  constructor
  · rintro ⟨_, more, ⟨used, rfl, ⟨hused, -⟩, rfl, hhead⟩, hf⟩
    rw [Modifiers.foldl_withToken] at hf
    exact ⟨used, more, rfl, hused, hhead, hf⟩
  · rintro ⟨used, more, rfl, hused, hhead, hf⟩
    refine ⟨_, more, ⟨used, rfl, ⟨hused, fun t _ => ?_⟩, Modifiers.foldl_withToken.symm, hhead⟩, hf⟩
    cases t.kind <;> rfl

/-! ## The parts of an item -/

/-- Parameters are read as they are spelled. -/
theorem param_reads : param.Reads Parameter Param.names := by
  intro stop tokens p names rest
  rw [param, identifier_bind_eq_done]
  simp only [discard_bind_eq_done, expect_bind_eq_done, typeExpr, pure_eq_done,
    (typeWithin_reads maxTypeDepth).bind_eq_done]
  constructor
  · rintro ⟨name, _, _, rfl, hname, ⟨colon, _, rfl, hcolon, used, type, _, _, rfl, htype,
      ⟨rfl, rfl, rfl⟩, rfl⟩, rfl⟩
    exact ⟨name :: colon :: used, by simp, .typed hname hcolon htype, by simp [Param.names]⟩
  · rintro ⟨_, rfl, ⟨hname, hcolon, htype⟩, rfl⟩
    rename_i name colon used type
    exact ⟨name, colon :: (used ++ rest), type.names, by simp, hname, ⟨colon, used ++ rest, rfl,
      hcolon, used, type, rest, [], rfl, htype, ⟨rfl, rfl, rfl⟩, by simp⟩, rfl⟩

theorem params_reads : (entries param).Reads (Entries Parameter) (·.flatMap Param.names) := by
  refine entries_reads param_reads fun used p hp => ?_
  obtain ⟨hname, -, -⟩ := hp
  exact ⟨_, _, rfl, by rw [hname]; decide⟩

/-- Bodies are read as they are spelled. -/
theorem functionBody_reads :
    functionBody.Reads (fun used found => Body used found.1 found.2) fun _ => [] := by
  intro stop tokens found names rest
  rw [functionBody, eat_bind_eq_done]
  constructor
  · rintro (⟨semicolon, _, rfl, hsemicolon, hpure⟩ | ⟨-, hdone⟩)
    · obtain ⟨rfl, rfl, rfl⟩ := pure_eq_done.1 hpure
      exact ⟨[semicolon], rfl, .missing hsemicolon, rfl⟩
    · rw [peek_bind_eq_done] at hdone
      cases tokens with
      | nil => exact absurd (here_bind_eq_done.1 hdone) fail_ne_done
      | cons t tokens =>
        simp only [List.head?_cons, Option.map_some] at hdone
        cases hkind : t.kind with
        | leftBrace =>
          rw [hkind] at hdone
          obtain ⟨used, span, _, _, heq, hblock, hpure, rfl⟩ := block_reads.bind_eq_done.1 hdone
          obtain ⟨rfl, rfl, rfl⟩ := pure_eq_done.1 hpure
          exact ⟨used, heq, .block hblock, rfl⟩
        | _ =>
          rw [hkind] at hdone
          exact absurd (here_bind_eq_done.1 hdone) fail_ne_done
  · rintro ⟨used, rfl, hbody, rfl⟩
    obtain ⟨body, final⟩ := found
    change Body used body final at hbody
    cases hbody with
    | @missing t hkind => exact .inl ⟨t, rest, rfl, hkind, rfl⟩
    | block hblock =>
      have hdone : (block >>= fun body => pure (some body, body)) stop (used ++ rest) =
          .done (some final, final) [] rest :=
        block_reads.bind_eq_done.2 ⟨used, final, rest, [], rfl, hblock, rfl, rfl⟩
      obtain ⟨hopener, -, -⟩ := hblock
      refine .inr ⟨by simp [hopener], ?_⟩
      rw [peek_bind_eq_done]
      simpa only [List.cons_append, List.head?_cons, Option.map_some, hopener] using hdone

/-- Annotations are read as they are spelled, unless a colon comes after an empty one. -/
theorem annotation_bind_eq_done {β : Type} {f : Option TypeExpr → Reader β} {b : β} :
    ( annotation >>= f) stop tokens = .done b names rest ↔
      ∃ used type more later, tokens = used ++ more ∧ Annotation used type ∧
        (type = none → more.head?.map Token.kind ≠ some .colon) ∧
        f type stop more = .done b later rest ∧
        names = (type.map TypeExpr.names).getD [] ++ later := by
  rw [bind_eq_done]
  constructor
  · rintro ⟨type, _, _, later, hdone, hf, rfl⟩
    rw [ annotation, eat_bind_eq_done] at hdone
    obtain ⟨colon, _, rfl, hcolon, hdone⟩ | ⟨hno, hdone⟩ := hdone
    · obtain ⟨used, e, _, _, rfl, he, hpure, rfl⟩ :=
        (typeWithin_reads maxTypeDepth).bind_eq_done.1 hdone
      obtain ⟨rfl, rfl, rfl⟩ := pure_eq_done.1 hpure
      exact ⟨colon :: used, some e, _, later, rfl, .typed hcolon he, by simp, hf, by simp⟩
    · obtain ⟨rfl, rfl, rfl⟩ := pure_eq_done.1 hdone
      exact ⟨[], none, _, later, rfl, .none, fun _ => hno, hf, rfl⟩
  · rintro ⟨used, type, more, later, rfl, htype, hno, hf, rfl⟩
    refine ⟨type, _, more, later, ?_, hf, rfl⟩
    rw [ annotation, eat_bind_eq_done]
    cases htype with
    | none => exact .inr ⟨hno rfl, rfl⟩
    | @typed colon used e hcolon he =>
      refine .inl ⟨colon, used ++ more, rfl, hcolon, ?_⟩
      exact (typeWithin_reads maxTypeDepth).bind_eq_done.2
        ⟨used, e, more, [], rfl, he, rfl, (List.append_nil _).symm⟩

theorem mention_bind_eq_done {β : Type} {name : String} {f : Unit → Reader β} {b : β} :
    (mention name >>= f) stop tokens = .done b names rest ↔
      ∃ later, f () stop tokens = .done b later rest ∧ names = name :: later := by
  rw [bind_eq_done]
  constructor
  · rintro ⟨_, _, _, later, hmention, hf, rfl⟩
    cases hmention
    exact ⟨later, hf, rfl⟩
  · rintro ⟨later, hf, rfl⟩
    exact ⟨(), [name], tokens, later, rfl, hf, rfl⟩

/-- What comes after the name of a function. -/
theorem signature_eq_done {build : List Param → TypeExpr → Option Span × Span → FunctionItem}
    {f : FunctionItem} :
    (do
      discard <| expect .leftParen
      let params ← entries param
      let result ← typeExpr
      let ending ← functionBody
      return build params result ending : Reader FunctionItem) stop tokens = .done f names rest ↔
      ∃ opener used params more result ending found,
        tokens = opener :: (used ++ (more ++ (ending ++ rest))) ∧ opener.kind = .leftParen ∧
        Entries Parameter used params ∧ TypeOf maxTypeDepth more result ∧
        Body ending found.1 found.2 ∧ f = build params result found ∧
        names = params.flatMap Param.names ++ result.names := by
  simp only [discard_bind_eq_done, expect_bind_eq_done, params_reads.bind_eq_done, typeExpr,
    (typeWithin_reads maxTypeDepth).bind_eq_done, functionBody_reads.bind_eq_done, pure_eq_done]
  constructor
  · rintro ⟨opener, _, rfl, hopener, used, params, _, _, rfl, hparams, ⟨more, result, _, _, rfl,
      hresult, ⟨ending, found, _, _, rfl, hbody, ⟨rfl, rfl, rfl⟩, rfl⟩, rfl⟩, rfl⟩
    exact ⟨opener, used, params, more, result, ending, found, rfl, hopener, hparams, hresult,
      hbody, rfl, by simp⟩
  · rintro ⟨opener, used, params, more, result, ending, found, rfl, hopener, hparams, hresult,
      hbody, rfl, rfl⟩
    exact ⟨opener, _, rfl, hopener, used, params, _, result.names, rfl, hparams, ⟨more, result, _,
      [], rfl, hresult, ⟨ending, found, rest, [], rfl, hbody, ⟨rfl, rfl, rfl⟩, rfl⟩, by simp⟩, rfl⟩

/-- Functions are read as they are spelled. -/
theorem function_reads (m : Modifiers) :
    (function m).Reads (Function m) fun f => (Item.function f).names := by
  intro stop tokens f names rest
  rw [function]
  simp only [expect_bind_eq_done, eat_bind_eq_done]
  constructor
  · rintro ⟨keyword, _, rfl, hkeyword, ⟨t, _, rfl, ht, hdone⟩ | ⟨-, hdone⟩⟩
    · obtain ⟨_, hsignature, rfl⟩ := mention_bind_eq_done.1 hdone
      obtain ⟨opener, used, params, more, result, ending, found, rfl, hopener, hparams, hresult,
        hbody, rfl, rfl⟩ := signature_eq_done.1 hsignature
      refine ⟨keyword :: t :: opener :: (used ++ (more ++ ending)), by simp, ?_,
        by simp [Item.names]⟩
      have hname : ∀ u ∈ some t, u.kind = .identifier := by simpa using ht
      exact .fn hkeyword hname hopener hparams hresult hbody
    · obtain ⟨opener, used, params, more, result, ending, found, rfl, hopener, hparams, hresult,
        hbody, rfl, rfl⟩ := signature_eq_done.1 hdone
      refine ⟨keyword :: opener :: (used ++ (more ++ ending)), by simp, ?_, by simp [Item.names]⟩
      have hname : ∀ u ∈ (none : Option Token), u.kind = .identifier := by simp
      exact .fn hkeyword hname hopener hparams hresult hbody
  · rintro ⟨_, rfl, ⟨hkeyword, hname, hopener, hparams, hresult, hbody⟩, rfl⟩
    rename_i keyword opener name used more ending params result body final
    refine ⟨keyword, name.toList ++ opener :: (used ++ (more ++ (ending ++ rest))), by simp,
      hkeyword, ?_⟩
    cases name with
    | none =>
      refine .inr ⟨by simp [hopener], signature_eq_done.2 ?_⟩
      exact ⟨opener, used, params, more, result, ending, (body, final), by simp, hopener, hparams,
        hresult, hbody, rfl, by simp [Item.names]⟩
    | some t =>
      refine .inl ⟨t, _, rfl, hname t rfl, mention_bind_eq_done.2
        ⟨params.flatMap Param.names ++ result.names, signature_eq_done.2 ?_, ?_⟩⟩
      · exact ⟨opener, used, params, more, result, ending, (body, final), by simp, hopener,
          hparams, hresult, hbody, rfl, rfl⟩
      · simp [Item.names]

/-- What comes after the type of a variable. -/
theorem assignment_eq_done {build : Token → VariableItem} {v : VariableItem} :
    (do
      if (← eat .equals).isSome then
        ofTokens fun tokens => (initializerRest tokens).map (((), ·))
      let semicolon ← expect .semicolon
      return build semicolon : Reader VariableItem) stop tokens = .done v names rest ↔
      ∃ used semicolon, tokens = used ++ semicolon :: rest ∧ Assignment used ∧
        semicolon.kind = .semicolon ∧ v = build semicolon ∧ names = [] := by
  have hskip {more later : List Token} {u : Unit} :
      (initializerRest more).map (((), ·)) = .ok (u, later) ↔ initializerRest more = .ok later := by
    cases initializerRest more with
    | error e => simp [Except.map]
    | ok found => simp [Except.map]
  simp only [eat_bind_eq_done]
  constructor
  · rintro (⟨equals, _, rfl, hequals, hdone⟩ | ⟨-, hdone⟩)
    · obtain ⟨_, _, hskipped, hend⟩ := ofTokens_bind_eq_done.1 hdone
      obtain ⟨run, rfl, hrun, -⟩ := initializerRest_eq_ok.1 (hskip.1 hskipped)
      obtain ⟨semicolon, _, rfl, hsemicolon, hpure⟩ := expect_bind_eq_done.1 hend
      obtain ⟨rfl, rfl, rfl⟩ := pure_eq_done.1 hpure
      exact ⟨equals :: run, semicolon, rfl, .run hequals hrun, hsemicolon, rfl, rfl⟩
    · obtain ⟨semicolon, _, rfl, hsemicolon, hpure⟩ := expect_bind_eq_done.1 hdone
      obtain ⟨rfl, rfl, rfl⟩ := pure_eq_done.1 hpure
      exact ⟨[], semicolon, rfl, .none, hsemicolon, rfl, rfl⟩
  · rintro ⟨used, semicolon, rfl, hassignment, hsemicolon, rfl, rfl⟩
    have hend : (expect .semicolon >>= fun semicolon => pure (build semicolon)) stop
        (semicolon :: rest) = .done (build semicolon) [] rest :=
      expect_bind_eq_done.2 ⟨semicolon, rest, rfl, hsemicolon, rfl⟩
    cases hassignment with
    | none => exact .inr ⟨by simp [hsemicolon], hend⟩
    | @run equals run hequals hrun =>
      refine .inl ⟨equals, _, rfl, hequals, ofTokens_bind_eq_done.2 ⟨(), _, hskip.2 ?_, hend⟩⟩
      exact initializerRest_eq_ok.2 ⟨run, rfl, hrun, by simp [hsemicolon]⟩

/-- Variables are read as they are spelled, if they start with the right keyword. -/
theorem variableAfter_reads (m : Modifiers) {kind : TokenKind}
    (hkind : kind = .varKeyword ∨ kind = .constKeyword) :
    (variableAfter m kind).Reads
      (fun used v => Variable m used v ∧ used.head?.map Token.kind = some kind)
      fun v => (Item.variable v).names := by
  intro stop tokens v names rest
  rw [variableAfter]
  simp only [expect_bind_eq_done, identifier_bind_eq_done, annotation_bind_eq_done]
  constructor
  · rintro ⟨keyword, _, rfl, hkeyword, name, _, _, rfl, hname, ⟨used, type, _, _, rfl, htype, -,
      hdone, rfl⟩, rfl⟩
    obtain ⟨more, semicolon, rfl, hassignment, hsemicolon, rfl, rfl⟩ := assignment_eq_done.1 hdone
    refine ⟨keyword :: name :: (used ++ (more ++ [semicolon])), by simp, ⟨?_, by simp [hkeyword]⟩,
      by simp [Item.names]⟩
    exact .var (by rwa [hkeyword]) hname htype hassignment hsemicolon
  · rintro ⟨_, rfl, ⟨⟨hkeyword, hname, htype, hassignment, hsemicolon⟩, hhead⟩, rfl⟩
    rename_i keyword name semicolon used more type
    have hno : type = none → (more ++ semicolon :: rest).head?.map Token.kind ≠ some .colon := by
      intro _
      cases hassignment with
      | none => simp [hsemicolon]
      | run hequals _ => simp [hequals]
    refine ⟨keyword, _, rfl, by simpa using hhead, name, used ++ (more ++ semicolon :: rest),
      (type.map TypeExpr.names).getD [], by simp, hname, ⟨used, type, _, [], rfl, htype, hno, ?_,
        (List.append_nil _).symm⟩, rfl⟩
    exact assignment_eq_done.2 ⟨more, semicolon, rfl, hassignment, hsemicolon, rfl, rfl⟩

/-- Tests are read as they are spelled. -/
theorem testBlock_eq_done {t : TestItem} :
    testBlock stop tokens = .done t names rest ↔
      ∃ keyword name used body, tokens = keyword :: (Option.toList name ++ (used ++ rest)) ∧
        keyword.kind = .testKeyword ∧ (∀ t ∈ name, t.kind = .string) ∧ Block used body ∧
        t = { name := name.map (unquoted ·.text), body, span := keyword.span.merge body } ∧
        names = [] := by
  rw [testBlock]
  simp only [expect_bind_eq_done, eat_bind_eq_done, block_reads.bind_eq_done, pure_eq_done]
  constructor
  · rintro ⟨keyword, _, rfl, hkeyword, ⟨name, _, rfl, hname, used, body, _, _, rfl, hblock,
      ⟨rfl, rfl, rfl⟩, rfl⟩ | ⟨-, used, body, _, _, rfl, hblock, ⟨rfl, rfl, rfl⟩, rfl⟩⟩
    · exact ⟨keyword, some name, used, body, rfl, hkeyword, by simpa using hname, hblock, rfl, rfl⟩
    · exact ⟨keyword, none, used, body, rfl, hkeyword, by simp, hblock, rfl, rfl⟩
  · rintro ⟨keyword, name, used, body, rfl, hkeyword, hname, hblock, rfl, rfl⟩
    refine ⟨keyword, _, rfl, hkeyword, ?_⟩
    cases name with
    | some name =>
      exact .inl ⟨name, _, rfl, hname name rfl, used, body, rest, [], rfl, hblock,
        ⟨rfl, rfl, rfl⟩, rfl⟩
    | none =>
      refine .inr ⟨?_, used, body, rest, [], rfl, hblock, ⟨rfl, rfl, rfl⟩, rfl⟩
      obtain ⟨hopener, -, -⟩ := hblock
      simp [hopener]

/-! ## Items -/

/-- A function or variable, after its modifiers. -/
theorem declared_eq_done {node : Item} {m : Modifiers} :
    (do
      match ← peek with
      | some .fnKeyword => return .function (← function m)
      | some .varKeyword => return .variable (← variableAfter m .varKeyword)
      | some .constKeyword => return .variable (← variableAfter m .constKeyword)
      | found => fail (.expectedItem found) (← here) : Reader Item) stop tokens =
        .done node names rest ↔
      ∃ used, tokens = used ++ rest ∧ names = node.names ∧
        ((∃ f, Function m used f ∧ node = .function f) ∨
          ∃ v, Variable m used v ∧ node = .variable v) := by
  rw [peek_bind_eq_done]
  constructor
  · intro hdone
    cases tokens with
    | nil => exact absurd (here_bind_eq_done.1 hdone) fail_ne_done
    | cons t tokens =>
      simp only [List.head?_cons, Option.map_some] at hdone
      cases hkind : t.kind with
      | fnKeyword =>
        rw [hkind] at hdone
        obtain ⟨used, f, _, _, heq, hf, hpure, rfl⟩ := (function_reads m).bind_eq_done.1 hdone
        obtain ⟨rfl, rfl, rfl⟩ := pure_eq_done.1 hpure
        exact ⟨used, heq, by simp, .inl ⟨f, hf, rfl⟩⟩
      | varKeyword =>
        rw [hkind] at hdone
        obtain ⟨used, v, _, _, heq, hv, hpure, rfl⟩ :=
          (variableAfter_reads m (.inl rfl)).bind_eq_done.1 hdone
        obtain ⟨rfl, rfl, rfl⟩ := pure_eq_done.1 hpure
        exact ⟨used, heq, by simp, .inr ⟨v, hv.1, rfl⟩⟩
      | constKeyword =>
        rw [hkind] at hdone
        obtain ⟨used, v, _, _, heq, hv, hpure, rfl⟩ :=
          (variableAfter_reads m (.inr rfl)).bind_eq_done.1 hdone
        obtain ⟨rfl, rfl, rfl⟩ := pure_eq_done.1 hpure
        exact ⟨used, heq, by simp, .inr ⟨v, hv.1, rfl⟩⟩
      | _ =>
        rw [hkind] at hdone
        exact absurd (here_bind_eq_done.1 hdone) fail_ne_done
  · rintro ⟨used, rfl, rfl, ⟨f, hf, rfl⟩ | ⟨v, hv, rfl⟩⟩
    · have hdone : (function m >>= fun f => pure (Item.function f)) stop (used ++ rest) =
          .done (.function f) (Item.function f).names rest :=
        (function_reads m).bind_eq_done.2 ⟨used, f, rest, [], rfl, hf, rfl,
          (List.append_nil _).symm⟩
      obtain ⟨hkeyword, _, _, _, _, _⟩ := hf
      simpa only [List.cons_append, List.head?_cons, Option.map_some, hkeyword] using hdone
    · have hhead : ∃ t more,
          used = t :: more ∧ (t.kind = .varKeyword ∨ t.kind = .constKeyword) := by
        obtain ⟨hkeyword, _, _, _, _⟩ := hv
        exact ⟨_, _, rfl, hkeyword⟩
      obtain ⟨t, more, rfl, hkind⟩ := hhead
      have hdone : (variableAfter m t.kind >>= fun v => pure (Item.variable v)) stop
          (t :: more ++ rest) = .done (.variable v) (Item.variable v).names rest :=
        (variableAfter_reads m hkind).bind_eq_done.2 ⟨t :: more, v, rest, [], rfl, ⟨hv, rfl⟩, rfl,
          (List.append_nil _).symm⟩
      rcases hkind with hkind | hkind <;> rw [hkind] at hdone <;>
        simpa only [List.cons_append, List.head?_cons, Option.map_some, hkind] using hdone

/-- What starts like neither a block nor a test is read as modifiers and what they modify. -/
theorem modified_eq_done {node : Item} :
    (do
      let m ← ofTokens (modifiers {})
      match ← peek with
      | some .fnKeyword => return .function (← function m)
      | some .varKeyword => return .variable (← variableAfter m .varKeyword)
      | some .constKeyword => return .variable (← variableAfter m .constKeyword)
      | found => fail (.expectedItem found) (← here) : Reader Item) stop tokens =
        .done node names rest ↔
      ∃ used, tokens = used ++ rest ∧ names = node.names ∧ ItemOf used node ∧
        (∀ span, node ≠ .comptime span) ∧ ∀ t, node ≠ .test t := by
  rw [modifiers_bind_eq_done]
  simp only [declared_eq_done]
  constructor
  · rintro ⟨used, _, rfl, hused, -, more, rfl, rfl, ⟨f, hf, rfl⟩ | ⟨v, hv, rfl⟩⟩
    · exact ⟨used ++ more, by simp, rfl, .fn hused hf, by simp, by simp⟩
    · exact ⟨used ++ more, by simp, rfl, .var hused hv, by simp, by simp⟩
  · rintro ⟨_, rfl, rfl, hitem, hcomptime, htest⟩
    cases hitem with
    | comptime => exact absurd rfl (hcomptime _)
    | test => exact absurd rfl (htest _)
    | @fn used more f hused hf =>
      refine ⟨used, more ++ rest, by simp, hused, ?_, more, rfl, rfl, .inl ⟨f, hf, rfl⟩⟩
      obtain ⟨hkeyword, _, _, _, _, _⟩ := hf
      simp [hkeyword, Modifiers.kinds]
    | @var used more v hused hv =>
      refine ⟨used, more ++ rest, by simp, hused, ?_, more, rfl, rfl, .inr ⟨v, hv, rfl⟩⟩
      obtain ⟨hkeyword, _, _, _, _⟩ := hv
      rcases hkeyword with hkeyword | hkeyword <;> simp [hkeyword, Modifiers.kinds]

theorem item_eq_done_of_head {node : Item}
    (hcomptime : tokens.head?.map Token.kind ≠ some .comptimeKeyword)
    (htest : tokens.head?.map Token.kind ≠ some .testKeyword) :
    item stop tokens = .done node names rest ↔
      ∃ used, tokens = used ++ rest ∧ names = node.names ∧ ItemOf used node ∧
        (∀ span, node ≠ .comptime span) ∧ ∀ t, node ≠ .test t := by
  rw [item, peek_bind_eq_done, ← @modified_eq_done stop]
  cases hhead : tokens.head?.map Token.kind with
  | none => exact Iff.rfl
  | some kind =>
    cases kind with
    | comptimeKeyword => exact absurd hhead hcomptime
    | testKeyword => exact absurd hhead htest
    | _ => exact Iff.rfl

/-- An item that is neither a block nor a test does not start like one. -/
theorem head_of_modified {node : Item} (h : ItemOf used node)
    (hcomptime : ∀ span, node ≠ .comptime span) (htest : ∀ t, node ≠ .test t) :
    ∃ t more, used = t :: more ∧ t.kind ≠ .comptimeKeyword ∧ t.kind ≠ .testKeyword := by
  have hhead {modifiers more : List Token} (hused : Modified modifiers)
      (hmodifiers : modifiers = [] → ∃ u us, more = u :: us ∧ u.kind ≠ .comptimeKeyword ∧
        u.kind ≠ .testKeyword) :
      ∃ t us, modifiers ++ more = t :: us ∧ t.kind ≠ .comptimeKeyword ∧
        t.kind ≠ .testKeyword := by
    cases modifiers with
    | nil => exact hmodifiers rfl
    | cons t us =>
      have ht := hused.isModifier t (List.mem_cons_self ..)
      refine ⟨t, us ++ more, rfl, ?_⟩
      constructor <;> (intro hkind; rw [hkind] at ht; revert ht; decide)
  cases h with
  | comptime => exact absurd rfl (hcomptime _)
  | test => exact absurd rfl (htest _)
  | fn hused hf =>
    refine hhead hused fun _ => ?_
    obtain ⟨hkeyword, _, _, _, _, _⟩ := hf
    exact ⟨_, _, rfl, by simp [hkeyword], by simp [hkeyword]⟩
  | var hused hv =>
    refine hhead hused fun _ => ?_
    obtain ⟨hkeyword, _, _, _, _⟩ := hv
    refine ⟨_, _, rfl, ?_⟩
    rcases hkeyword with hkeyword | hkeyword <;> simp [hkeyword]

/-- Items are read as they are spelled. -/
theorem item_reads : item.Reads ItemOf Item.names := by
  intro stop tokens node names rest
  constructor
  · intro hdone
    by_cases hcomptime : tokens.head?.map Token.kind = some .comptimeKeyword
    · rw [item, peek_bind_eq_done, hcomptime] at hdone
      obtain ⟨keyword, _, rfl, hkeyword, hdone⟩ := expect_bind_eq_done.1 hdone
      obtain ⟨used, span, _, _, rfl, hblock, hpure, rfl⟩ := block_reads.bind_eq_done.1 hdone
      obtain ⟨rfl, rfl, rfl⟩ := pure_eq_done.1 hpure
      exact ⟨keyword :: used, rfl, .comptime hkeyword hblock, rfl⟩
    by_cases htest : tokens.head?.map Token.kind = some .testKeyword
    · rw [item, peek_bind_eq_done, htest] at hdone
      obtain ⟨t, _, _, _, htestBlock, hpure, rfl⟩ := bind_eq_done.1 hdone
      obtain ⟨keyword, name, used, body, rfl, hkeyword, hname, hblock, rfl, rfl⟩ :=
        testBlock_eq_done.1 htestBlock
      obtain ⟨rfl, rfl, rfl⟩ := pure_eq_done.1 hpure
      exact ⟨keyword :: (name.toList ++ used), by simp, .test hkeyword hname hblock, rfl⟩
    · obtain ⟨used, rfl, rfl, hitem, -, -⟩ := (item_eq_done_of_head hcomptime htest).1 hdone
      exact ⟨used, rfl, hitem, rfl⟩
  · rintro ⟨_, rfl, hitem, rfl⟩
    cases hitem with
    | @comptime keyword used span hkeyword hblock =>
      rw [item, peek_bind_eq_done]
      simp only [List.cons_append, List.head?_cons, Option.map_some, hkeyword]
      refine expect_bind_eq_done.2 ⟨keyword, _, rfl, hkeyword, ?_⟩
      exact block_reads.bind_eq_done.2 ⟨used, span, rest, [], rfl, hblock, rfl, rfl⟩
    | @test keyword name used body hkeyword hname hblock =>
      rw [item, peek_bind_eq_done]
      simp only [List.cons_append, List.head?_cons, Option.map_some, hkeyword]
      refine bind_eq_done.2 ⟨_, [], rest, [], testBlock_eq_done.2 ?_, rfl, rfl⟩
      exact ⟨keyword, name, used, body, by simp, hkeyword, hname, hblock, rfl, rfl⟩
    | @fn used more f hused hf =>
      obtain ⟨t, us, heq, hcomptime, htest⟩ := head_of_modified (.fn hused hf) (by simp) (by simp)
      refine (item_eq_done_of_head ?_ ?_).2
        ⟨used ++ more, rfl, rfl, .fn hused hf, by simp, by simp⟩
      · simpa [heq] using hcomptime
      · simpa [heq] using htest
    | @var used more v hused hv =>
      obtain ⟨t, us, heq, hcomptime, htest⟩ := head_of_modified (.var hused hv) (by simp) (by simp)
      refine (item_eq_done_of_head ?_ ?_).2
        ⟨used ++ more, rfl, rfl, .var hused hv, by simp, by simp⟩
      · simpa [heq] using hcomptime
      · simpa [heq] using htest

end Reader

/-! ## Files -/

open Reader Grammar

/-- An item of a parse is spelled by some of the tokens, one after another, and the names it
mentions are among those of the parse. -/
theorem exists_of_mem_itemsWithin {stop fuel : Nat} {tokens : List Token} {node : Item}
    (h : node ∈ (itemsWithin stop fuel tokens).items) :
    ∃ before used after, tokens = before ++ (used ++ after) ∧ ItemOf used node ∧
      ∀ name ∈ node.names, name ∈ (itemsWithin stop fuel tokens).names := by
  induction fuel generalizing tokens with
  | zero => simp [itemsWithin] at h
  | succ fuel ih =>
    rcases tokens with _ | ⟨t, ts⟩
    · simp [itemsWithin] at h
    · rw [itemsWithin] at h ⊢
      cases hitem : item stop (t :: ts) with
      | failed e names => simp [hitem] at h
      | done first names rest =>
        obtain ⟨used, hused, hfirst, rfl⟩ := item_reads.1 hitem
        simp only [hitem, List.mem_cons] at h
        rcases h with rfl | h
        · exact ⟨[], used, rest, hused, hfirst, fun name hname => List.mem_append_left _ hname⟩
        · obtain ⟨before, used', after, rfl, hnode, hnames⟩ := ih h
          exact ⟨used ++ before, used', after, by simp [hused], hnode,
            fun name hname => List.mem_append_right _ (hnames name hname)⟩

theorem Grammar.ItemOf.ne_nil {used : List Token} {node : Item} (h : ItemOf used node) :
    used ≠ [] := by
  cases h with
  | comptime => simp
  | test => simp
  | fn _ hf =>
    obtain ⟨_, _, _, _, _, _⟩ := hf
    simp
  | var _ hv =>
    obtain ⟨_, _, _, _, _⟩ := hv
    simp

/-- No tokens start with the spellings of two items. -/
theorem Grammar.ItemOf.head_unique {used used' rest rest' : List Token} {node node' : Item}
    (h : ItemOf used node) (h' : ItemOf used' node') (heq : used ++ rest = used' ++ rest') :
    used = used' ∧ node = node' ∧ rest = rest' := by
  have hread : item 0 (used ++ rest) = .done node node.names rest :=
    item_reads.2 ⟨used, rfl, h, rfl⟩
  have hread' : item 0 (used ++ rest) = .done node' node'.names rest' :=
    item_reads.2 ⟨used', heq, h', rfl⟩
  rw [hread] at hread'
  obtain ⟨rfl, -, rfl⟩ := Reading.done.inj hread'
  exact ⟨List.append_cancel_right heq, rfl, rfl⟩

end IncrementalBuild
