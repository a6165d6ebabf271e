import IncrementalBuild.Proofs.Syntax.Readers

/-!
# Where a run between delimiters ends

A run that an opener begins ends with the shortest balanced run that the tokens start with. Where
they start with none, the error is at the first closer that is not the partner of the innermost
open delimiter, or else at the innermost delimiter that is open at the end.

The delimiters a scanner keeps are the open ones of the tokens it has passed (`Grammar.Leaves`),
and which of these is innermost is a matter of the tokens alone (`Grammar.Innermost.unique`).

## Main results

* `closing_eq_ok_iff`: what a run takes if it ends.
* `closing_eq_error_iff`: what it reports if it does not.
-/

set_option autoImplicit false

namespace IncrementalBuild

theorem TokenKind.isCloser_of_isOpener {k : TokenKind} (h : k.isOpener = true) :
    k.isCloser = false := by
  obtain ⟨partner, hpair⟩ := Option.isSome_iff_exists.1 h
  exact (TokenKind.ne_of_closer? hpair).2

namespace Grammar

variable {tokens before run rest outer : List Token} {opener closer other t : Token}
  {e e' : SyntaxError}

/-! ## Balanced runs -/

theorem Balanced.append (h : Balanced run) (hrest : Balanced rest) : Balanced (run ++ rest) := by
  induction h with
  | nil => exact hrest
  | plain hopener hcloser _ ih => exact .plain hopener hcloser ih
  | nested hpair hinner _ _ ih =>
    rw [List.cons_append, List.append_assoc, List.cons_append]
    exact .nested hpair hinner ih

theorem Balanced.countP_eq (h : Balanced run) :
    run.countP (·.kind.isOpener) = run.countP (·.kind.isCloser) := by
  induction h with
  | nil => rfl
  | plain hopener hcloser _ ih => simp [hopener, hcloser, ih]
  | nested hpair _ _ ihinner ihrest =>
    have hopens := TokenKind.isOpener_of_closer? hpair
    obtain ⟨-, hstays⟩ := TokenKind.ne_of_closer? hpair
    obtain ⟨hcloses, hpasses⟩ := TokenKind.isCloser_of_closer? hpair
    simp [hopens, hstays, hcloses, hpasses]
    omega

/-- No end of a balanced run has more openers than closers. -/
theorem Balanced.countP_le_of_suffix (h : Balanced run) (hsuffix : rest <:+ run) :
    rest.countP (·.kind.isOpener) ≤ rest.countP (·.kind.isCloser) := by
  induction h generalizing rest with
  | nil => simp [List.suffix_nil.1 hsuffix]
  | plain hopener hcloser hrun ih =>
    rcases List.suffix_cons_iff.1 hsuffix with rfl | hsuffix
    · simp [hopener, hcloser, hrun.countP_eq]
    · exact ih hsuffix
  | @nested opener closer inner more hpair hinner hmore ihinner ihmore =>
    obtain ⟨hcloses, hpasses⟩ := TokenKind.isCloser_of_closer? hpair
    rcases List.suffix_cons_iff.1 hsuffix with rfl | ⟨front, hfront⟩
    · exact (Balanced.nested hpair hinner hmore).countP_eq.le
    · rcases List.append_eq_append_iff.1 hfront with ⟨inner', rfl, rfl⟩ | ⟨after, rfl, hafter⟩
      · have hle := ihinner (List.suffix_append front inner')
        simp only [List.countP_append, List.countP_cons, hcloses, hpasses, hmore.countP_eq, if_true,
          Bool.false_eq_true, if_false]
        omega
      · rcases List.suffix_cons_iff.1 ⟨after, hafter.symm⟩ with rfl | hsuffix
        · simp [hcloses, hpasses, hmore.countP_eq]
        · exact ihmore hsuffix

/-- A balanced run that starts with an opener has the partner of that opener in it. -/
theorem Balanced.exists_partner (h : Balanced (opener :: rest))
    (hopener : opener.kind.isOpener = true) :
    ∃ run closer more, rest = run ++ closer :: more ∧ Balanced run ∧
      opener.kind.closer? = some closer.kind := by
  cases h with
  | plain hplain => simp [hplain] at hopener
  | nested hpair hinner _ => exact ⟨_, _, _, rfl, hinner, hpair⟩

/-! ## Open delimiters -/

/-- After some tokens, `opener` is the innermost open delimiter: what follows it is balanced. -/
def Innermost (tokens : List Token) (opener : Token) : Prop :=
  opener.kind.isOpener = true ∧ ∃ front run, tokens = front ++ opener :: run ∧ Balanced run

/-- An opener in a balanced run is not the innermost open delimiter, because its partner follows. -/
theorem Balanced.not_innermost (h : Balanced run) : ¬Innermost run opener := by
  rintro ⟨hopener, front, inner, rfl, hinner⟩
  have hle := h.countP_le_of_suffix (List.suffix_append front (opener :: inner))
  have hcloser := TokenKind.isCloser_of_isOpener hopener
  simp only [List.countP_cons, hopener, hcloser, hinner.countP_eq, if_true, Bool.false_eq_true,
    if_false] at hle
  omega

theorem Innermost.unique (h : Innermost tokens opener) (h' : Innermost tokens other) :
    opener = other := by
  obtain ⟨hopener, front, run, rfl, hrun⟩ := h
  obtain ⟨hother, front', run', heq, hrun'⟩ := h'
  rcases List.append_eq_append_iff.1 heq with ⟨gap, -, hgap⟩ | ⟨gap, -, hgap⟩
  · cases gap with
    | nil => exact (List.cons.inj hgap).1
    | cons t gap =>
      exact absurd ⟨hother, gap, run', (List.cons.inj hgap).2, hrun'⟩ hrun.not_innermost
  · cases gap with
    | nil => exact (List.cons.inj hgap).1.symm
    | cons t gap =>
      exact absurd ⟨hopener, gap, run, (List.cons.inj hgap).2, hrun⟩ hrun'.not_innermost

/-- The delimiters that tokens leave open, the innermost first. -/
inductive Leaves : (tokens opened : List Token) → Prop where
  | nothing {run : List Token} : Balanced run → Leaves run []
  | opened {front run outer : List Token} {opener : Token} :
      Leaves front outer → opener.kind.isOpener = true → Balanced run →
      Leaves (front ++ opener :: run) (opener :: outer)

theorem Leaves.append (h : Leaves before outer) (hrun : Balanced run) :
    Leaves (before ++ run) outer := by
  cases h with
  | nothing hbefore => exact .nothing (hbefore.append hrun)
  | opened hfront hopener hinner =>
    rw [List.append_assoc]
    exact .opened hfront hopener (hinner.append hrun)

theorem Leaves.close (h : Leaves before (opener :: outer))
    (hpair : opener.kind.closer? = some closer.kind) : Leaves (before ++ [closer]) outer := by
  cases h with
  | opened hfront _ hinner =>
    rw [List.append_assoc]
    exact hfront.append (.nested hpair hinner .nil)

theorem Leaves.innermost (h : Leaves before (opener :: outer)) : Innermost before opener := by
  cases h with
  | opened _ hopener hinner => exact ⟨hopener, _, _, rfl, hinner⟩

/-! ## Closers that do not fit -/

/-- After some tokens a closer stands that is not the partner of the innermost open delimiter. -/
structure Misfit (before : List Token) (opener closer : Token) : Prop where
  isCloser : closer.kind.isCloser = true
  innermost : Innermost before opener
  mismatch : opener.kind.closer? ≠ some closer.kind

/-- No closer among some tokens is a misfit: where a delimiter is open before it, it is the partner
of the innermost one. -/
def AllFit (tokens : List Token) : Prop :=
  ∀ before opener closer after, tokens = before ++ closer :: after →
    ¬Misfit before opener closer

theorem AllFit.concat (h : AllFit before) (ht : ∀ opener, ¬Misfit before opener t) :
    AllFit (before ++ [t]) := by
  intro front opener closer rest heq
  rcases List.eq_nil_or_concat rest with rfl | ⟨rest, u, rfl⟩
  · obtain ⟨rfl, rfl⟩ := List.append_singleton_inj.1 heq
    exact ht opener
  · rw [List.concat_eq_append, ← List.cons_append, ← List.append_assoc] at heq
    exact h front opener closer rest (List.append_singleton_inj.1 heq).1

theorem allFit_singleton (t : Token) : AllFit [t] := by
  have hnil : AllFit [] := fun _ _ _ _ heq => by simp at heq
  refine hnil.concat ?_
  rintro opener ⟨-, ⟨-, front, run, heq, -⟩, -⟩
  simp at heq

/-- A token fits that closes nothing, or the innermost open delimiter. -/
theorem Innermost.not_misfit (h : Innermost before opener)
    (ht : t.kind.isCloser = true → opener.kind.closer? = some t.kind) :
    ¬Misfit before other t := by
  rintro ⟨hcloser, hother, hmismatch⟩
  rw [← h.unique hother] at hmismatch
  exact hmismatch (ht hcloser)

/-- Of the closers among some tokens that do not fit, `closer` is the first, and `opener` is the
innermost delimiter open before it. -/
def FirstMisfit (tokens : List Token) (opener closer : Token) : Prop :=
  ∃ before after, tokens = before ++ closer :: after ∧ AllFit before ∧ Misfit before opener closer

theorem Misfit.eq_nil {gap after after' : List Token} {closer' : Token}
    (h : Misfit before opener closer) (hfit : AllFit (before ++ gap))
    (heq : closer :: after = gap ++ closer' :: after') : gap = [] := by
  cases gap with
  | nil => rfl
  | cons t gap =>
    obtain ⟨rfl, -⟩ := List.cons.inj heq
    exact absurd h (hfit before opener closer gap rfl)

theorem FirstMisfit.unique {closer' : Token} (h : FirstMisfit tokens opener closer)
    (h' : FirstMisfit tokens other closer') : opener = other ∧ closer = closer' := by
  obtain ⟨before, after, rfl, hfit, hmisfit⟩ := h
  obtain ⟨before', after', heq, hfit', hmisfit'⟩ := h'
  obtain rfl : before = before' := by
    rcases List.append_eq_append_iff.1 heq with ⟨gap, rfl, hgap⟩ | ⟨gap, rfl, hgap⟩
    · rw [hmisfit.eq_nil hfit' hgap, List.append_nil]
    · rw [hmisfit'.eq_nil hfit hgap, List.append_nil]
  obtain ⟨rfl, -⟩ := List.cons.inj (List.append_cancel_left heq)
  exact ⟨hmisfit.innermost.unique hmisfit'.innermost, rfl⟩

/-- What is reported about tokens that start with no balanced run: the first closer that does not
fit, with the innermost delimiter open before it, or the innermost delimiter open at the end. -/
inductive Blame (tokens : List Token) : SyntaxError → Prop where
  | misfit {innermost closer : Token} :
      FirstMisfit tokens innermost closer →
      Blame tokens
        { cause := .unexpectedCloser closer.kind, span := closer.span,
          openedAt := some innermost.span }
  | unclosed {innermost : Token} :
      AllFit tokens → Innermost tokens innermost →
      Blame tokens { cause := .unclosedDelimiter innermost.kind, span := innermost.span }

theorem AllFit.not_firstMisfit (h : AllFit tokens) : ¬FirstMisfit tokens opener closer :=
  fun ⟨_, _, heq, _, hmisfit⟩ => h _ _ _ _ heq hmisfit

theorem Blame.unique (h : Blame tokens e) (h' : Blame tokens e') : e = e' := by
  cases h with
  | misfit hfirst =>
    cases h' with
    | misfit hfirst' =>
      obtain ⟨rfl, rfl⟩ := hfirst.unique hfirst'
      rfl
    | unclosed hfit' => exact absurd hfirst hfit'.not_firstMisfit
  | unclosed hfit hinnermost =>
    cases h' with
    | misfit hfirst' => exact absurd hfirst' hfit.not_firstMisfit
    | unclosed _ hinnermost' => rw [hinnermost.unique hinnermost']

/-! ## The scanner -/

/-- Tokens start with a balanced run. -/
structure StartsWith (tokens word : List Token) : Prop where
  nonempty : word ≠ []
  isPrefix : word <+: tokens
  balanced : Balanced word

/-- Of the balanced runs that tokens start with, the shortest. -/
structure StartsWithShortest (tokens word : List Token) : Prop extends StartsWith tokens word where
  isPrefix_of : ∀ other, StartsWith tokens other → word <+: other

end Grammar

open Grammar

variable {opener innermost closer : Token} {tokens before outer rest word : List Token}
  {e : SyntaxError}

/-- A balanced run that the tokens start with lets the run end, in it. -/
theorem Grammar.StartsWith.exists_closing (h : StartsWith (opener :: tokens) word)
    (hopener : opener.kind.isOpener = true) :
    ∃ run closer more rest, word = opener :: (run ++ closer :: more) ∧
      tokens = run ++ closer :: (more ++ rest) ∧ Balanced (opener :: (run ++ [closer])) ∧
      closing opener [] tokens = .ok (closer, more ++ rest) := by
  obtain ⟨hnonempty, ⟨rest, hprefix⟩, hbalanced⟩ := h
  obtain ⟨t, used, rfl⟩ := List.exists_cons_of_ne_nil hnonempty
  obtain ⟨rfl, rfl⟩ := List.cons.inj hprefix
  obtain ⟨run, closer, more, rfl, hrun, hpair⟩ := hbalanced.exists_partner hopener
  refine ⟨run, closer, more, rest, rfl, by simp, .nested hpair hrun .nil, ?_⟩
  exact closing_eq_ok.2 ⟨run, by simp, hrun, hpair⟩

/-- A run that ends takes the shortest balanced run that the tokens start with. -/
theorem closing_eq_ok_iff (hopener : opener.kind.isOpener = true) :
    closing opener [] tokens = .ok (closer, rest) ↔
      ∃ used, opener :: tokens = used ++ closer :: rest ∧
        StartsWithShortest (opener :: tokens) (used ++ [closer]) := by
  constructor
  · intro h
    obtain ⟨run, rfl, hrun, hpair⟩ := closing_eq_ok.1 h
    refine ⟨opener :: run, rfl, ⟨by simp, ⟨rest, by simp⟩, .nested hpair hrun .nil⟩,
      fun other hother => ?_⟩
    obtain ⟨run', closer', more, rest', rfl, htokens, -, hclosing⟩ := hother.exists_closing hopener
    -- both runs end at the same closer, so that they differ only in what `other` has after it
    rw [h] at hclosing
    obtain ⟨rfl, rfl⟩ := Prod.mk.inj (Except.ok.inj hclosing)
    obtain rfl := List.append_cancel_right htokens
    exact ⟨more, by simp⟩
  · rintro ⟨used, heq, hshortest⟩
    obtain ⟨run, closer', more, rest', hused, rfl, hbalanced, hclosing⟩ :=
      hshortest.toStartsWith.exists_closing hopener
    obtain ⟨tail, htail⟩ := hshortest.isPrefix_of (opener :: (run ++ [closer']))
      ⟨by simp, ⟨more ++ rest', by simp⟩, hbalanced⟩
    rw [hused] at htail
    obtain ⟨rfl, -⟩ : more = [] ∧ tail = [] := by simpa using htail
    rw [← List.cons_append] at hused
    obtain ⟨rfl, rfl⟩ := List.append_singleton_inj.1 hused
    rw [hclosing]
    simpa using heq

/-- The step of a scanner that fails: the tokens passed, and those to come, have the error that the
open delimiters lead to. -/
theorem blame_of_closing (hopened : Leaves before (innermost :: outer)) (hfit : AllFit before)
    (h : closing innermost outer tokens = .error e) : Blame (before ++ tokens) e := by
  induction tokens generalizing innermost outer before with
  | nil =>
    cases h
    rw [List.append_nil]
    exact .unclosed hfit hopened.innermost
  | cons t rest ih =>
    rw [List.append_cons]
    by_cases hopener : t.kind.isOpener = true
    · rw [closing_opener hopener] at h
      have hcloser := TokenKind.isCloser_of_isOpener hopener
      refine ih (.opened hopened hopener .nil) (hfit.concat fun _ => ?_) h
      exact hopened.innermost.not_misfit (by simp [hcloser])
    · rw [Bool.not_eq_true] at hopener
      by_cases hcloser : t.kind.isCloser = true
      · by_cases hpair : innermost.kind.closer? = some t.kind
        · rw [closing_closer hpair] at h
          cases outer with
          | nil => cases h
          | cons next outer =>
            refine ih (hopened.close hpair) (hfit.concat fun _ => ?_) h
            exact hopened.innermost.not_misfit fun _ => hpair
        · rw [closing.eq_def] at h
          dsimp only at h
          rw [hopener, hcloser, if_neg hpair] at h
          cases h
          rw [← List.append_cons]
          exact .misfit ⟨before, rest, rfl, hfit, hcloser, hopened.innermost, hpair⟩
      · rw [Bool.not_eq_true] at hcloser
        rw [closing_plain hopener hcloser] at h
        refine ih (hopened.append (.plain hopener hcloser .nil)) (hfit.concat fun _ => ?_) h
        exact hopened.innermost.not_misfit (by simp [hcloser])

/-- A run that does not end has no balanced run to take, and reports what is to blame. -/
theorem closing_eq_error_iff (hopener : opener.kind.isOpener = true) :
    closing opener [] tokens = .error e ↔
      (¬∃ word, StartsWith (opener :: tokens) word) ∧ Blame (opener :: tokens) e := by
  have hblame {e' : SyntaxError} (h : closing opener [] tokens = .error e') :
      Blame (opener :: tokens) e' := by
    have hfirst : Leaves [opener] [opener] := .opened (.nothing .nil) hopener .nil
    exact blame_of_closing hfirst (allFit_singleton opener) h
  constructor
  · refine fun h => ⟨?_, hblame h⟩
    rintro ⟨word, hword⟩
    obtain ⟨_, _, _, _, -, -, -, hclosing⟩ := hword.exists_closing hopener
    rw [h] at hclosing
    cases hclosing
  · rintro ⟨hno, he⟩
    cases hclosing : closing opener [] tokens with
    | error e' => rw [(hblame hclosing).unique he]
    | ok answer =>
      obtain ⟨used, -, hshortest⟩ := (closing_eq_ok_iff hopener).1 hclosing
      exact absurd ⟨_, hshortest.toStartsWith⟩ hno

/-- The run that an opener begins ends if and only if the tokens from that opener on start with a
balanced run, and it takes the shortest of these. Otherwise a closer that is not the partner of the
innermost open delimiter is an error, the first one, which also names that delimiter; and if there
is no such closer, the innermost delimiter open at the end is not closed. -/
theorem run_ends_or_blames (opener : Token) (tokens : List Token)
    (hopener : opener.kind.isOpener = true) :
    ((∃ closer rest, closing opener [] tokens = .ok (closer, rest)) ↔
      ∃ word, StartsWith (opener :: tokens) word) ∧
    (∀ closer rest, closing opener [] tokens = .ok (closer, rest) →
      ∃ used, opener :: tokens = used ++ closer :: rest ∧
        StartsWithShortest (opener :: tokens) (used ++ [closer])) ∧
    ((¬∃ word, StartsWith (opener :: tokens) word) →
      (∀ innermost closer, FirstMisfit (opener :: tokens) innermost closer →
        closing opener [] tokens = .error
          { cause := .unexpectedCloser closer.kind, span := closer.span,
            openedAt := some innermost.span }) ∧
      ((¬∃ innermost closer, FirstMisfit (opener :: tokens) innermost closer) →
        ∃ innermost e, Innermost (opener :: tokens) innermost ∧
          closing opener [] tokens = .error e ∧
          e = { cause := .unclosedDelimiter innermost.kind, span := innermost.span } ∧
          e.code = .E1002)) := by
  refine ⟨⟨?_, ?_⟩, fun closer rest => (closing_eq_ok_iff hopener).1, fun hno => ⟨?_, ?_⟩⟩
  · rintro ⟨closer, rest, h⟩
    obtain ⟨used, -, hshortest⟩ := (closing_eq_ok_iff hopener).1 h
    exact ⟨_, hshortest.toStartsWith⟩
  · rintro ⟨word, hword⟩
    obtain ⟨_, closer, more, rest, -, -, -, hclosing⟩ := hword.exists_closing hopener
    exact ⟨closer, more ++ rest, hclosing⟩
  · exact fun innermost closer hfirst => (closing_eq_error_iff hopener).2 ⟨hno, .misfit hfirst⟩
  · intro hfit
    cases hclosing : closing opener [] tokens with
    | ok answer =>
      obtain ⟨used, -, hshortest⟩ := (closing_eq_ok_iff hopener).1 hclosing
      exact absurd ⟨_, hshortest.toStartsWith⟩ hno
    | error e =>
      cases ((closing_eq_error_iff hopener).1 hclosing).2 with
      | misfit hfirst => exact absurd ⟨_, _, hfirst⟩ hfit
      | unclosed _ hinnermost => exact ⟨_, _, hinnermost, rfl, rfl, rfl⟩

/-- A delimiter that stands at an offset. -/
def TokenKind.signAt (kind : TokenKind) (offset : Nat) : Token :=
  { kind, text := kind.spelling?.getD "", span := ⟨offset, offset + 1⟩ }

/-- Pairs that cross, in a brace: a parenthesis holds a pair of brackets, then the brace is closed
before the parenthesis is. -/
def crossedRun : List Token :=
  [TokenKind.leftParen.signAt 1, TokenKind.leftBracket.signAt 2, TokenKind.rightBracket.signAt 3,
    TokenKind.rightBrace.signAt 4, TokenKind.rightParen.signAt 5]

theorem crossedRun_is_cut_off_at_brace :
    (TokenKind.leftBrace.signAt 0).kind.isOpener = true ∧
    closing (TokenKind.leftBrace.signAt 0) [] crossedRun = .error
      { cause := .unexpectedCloser .rightBrace, span := ⟨4, 5⟩, openedAt := some ⟨1, 2⟩ } := by
  refine ⟨rfl, ?_⟩
  have hrun := run_ends_or_blames (TokenKind.leftBrace.signAt 0) crossedRun rfl
  have hpair : Balanced [TokenKind.leftBracket.signAt 2, TokenKind.rightBracket.signAt 3] :=
    .nested rfl .nil .nil
  refine (hrun.2.2 ?_).1 (TokenKind.leftParen.signAt 1) (TokenKind.rightBrace.signAt 4)
    ⟨_ :: _ :: _, [_], rfl, ?_, rfl, ⟨rfl, [_], _, rfl, hpair⟩, by decide⟩
  · intro hword
    obtain ⟨closer, rest, hclosing⟩ := hrun.1.2 hword
    cases hclosing
  · have hopened : AllFit [TokenKind.leftBrace.signAt 0, TokenKind.leftParen.signAt 1,
        TokenKind.leftBracket.signAt 2] :=
      ((allFit_singleton (TokenKind.leftBrace.signAt 0)).concat
        (t := TokenKind.leftParen.signAt 1) fun _ h => absurd h.isCloser (by decide)).concat
        (t := TokenKind.leftBracket.signAt 2) fun _ h => absurd h.isCloser (by decide)
    have hinnermost : Innermost [TokenKind.leftBrace.signAt 0, TokenKind.leftParen.signAt 1,
        TokenKind.leftBracket.signAt 2] (TokenKind.leftBracket.signAt 2) :=
      ⟨rfl, [_, _], [], rfl, .nil⟩
    exact hopened.concat fun _ => hinnermost.not_misfit fun _ => rfl

end IncrementalBuild
