import IncrementalBuild.Proofs.Source.Bytes
import IncrementalBuild.Proofs.Syntax.Offsets
import IncrementalBuild.Syntax.Lexer

/-!
# Lexing parts of a text

A piece of a text is as long as any pattern allows, so what it is can depend on the
character after it. But a piece that ends before the last character of a part is the same
in the part alone, and the signs that end items are one character whatever follows. So a
text can be cut before any token and after any such sign, and the tokens of the parts are
those of the whole.
-/

set_option autoImplicit false

namespace IncrementalBuild

namespace Lexeme

variable {u v : List Char}

/-- A run that ends within the first part of a text is a run of that part. -/
theorem takeWhile_append_of_lt {p : Char → Bool}
    (h : ((u ++ v).takeWhile p).length < u.length) : u.takeWhile p = (u ++ v).takeWhile p := by
  rw [List.takeWhile_append] at h ⊢
  split
  · rename_i hall
    rw [if_pos hall, List.length_append] at h
    omega
  · rfl

theorem takeWhile_append_ne_nil {p : Char → Bool} (h : u.takeWhile p ≠ []) :
    (u ++ v).takeWhile p ≠ [] := by
  rw [List.takeWhile_append]
  split
  · exact List.append_ne_nil_of_left_ne_nil (fun hu => h (by simp [hu])) _
  · exact h

theorem le_quotedRun (quote : Char) (n : Nat) (cs : List Char) : n ≤ quotedRun quote n cs := by
  fun_induction quotedRun quote n cs <;> omega

theorem quotedRun_append {quote : Char} {n : Nat}
    (h : quotedRun quote n (u ++ v) < n + u.length) :
    quotedRun quote n u = quotedRun quote n (u ++ v) := by
  fun_induction quotedRun quote n u with
  | case1 n =>
    have := le_quotedRun quote n v
    simp only [List.nil_append, List.length_nil] at h
    omega
  | case2 n =>
    cases v with
    | nil => simp [quotedRun]
    | cons c v =>
      have := le_quotedRun quote (n + 2) v
      simp only [List.cons_append, List.nil_append, List.length_singleton, quotedRun] at h ⊢
      split at h
      · rename_i hc
        rw [if_pos hc]
      · omega
  | case3 n c rest hc => simp [quotedRun, hc]
  | case4 n c rest hc ih =>
    simp only [List.cons_append, List.length_cons, quotedRun, if_neg hc] at h ⊢
    exact ih (by omega)
  | case5 n c rest hslash hc =>
    rw [List.cons_append, quotedRun.eq_4 _ _ _ _ hslash, if_pos hc]
  | case6 n c rest hslash hc ih =>
    rw [List.cons_append, quotedRun.eq_4 _ _ _ _ hslash, if_neg hc] at h ⊢
    exact ih (by simp only [List.length_cons] at h; omega)

theorem head?_append {cs ds : List Char} (h : cs ≠ []) : (cs ++ ds).head? = cs.head? := by
  cases cs with
  | nil => exact absurd rfl h
  | cons c cs => rfl

theorem quoted_append {quote : Char} {closed cut : Lexeme}
    (h : (quoted quote closed cut (u ++ v)).2 < u.length) :
    quoted quote closed cut u = quoted quote closed cut (u ++ v) := by
  have hn : quotedRun quote 0 (u ++ v) < u.length := by
    unfold quoted at h
    dsimp only at h
    split at h <;> omega
  have hrun : quotedRun quote 0 u = quotedRun quote 0 (u ++ v) := quotedRun_append (by omega)
  unfold quoted
  rw [hrun]
  dsimp only
  rw [List.drop_append_of_le_length (Nat.le_of_lt hn), head?_append (by simpa using hn)]

/-- Two texts of which the same is asked stand alike if what is found in the second ends
in time. -/
theorem ite_eq_ite_of_lt {p : Prop} [Decidable p] {x x' y y' : Lexeme × Nat} {k : Nat}
    (h : (if p then x' else y').2 < k) (hx : x'.2 < k → x = x') (hy : y'.2 < k → y = y') :
    (if p then x else y) = if p then x' else y' := by
  split
  · rename_i hp
    rw [if_pos hp] at h
    exact hx h
  · rename_i hp
    rw [if_neg hp] at h
    exact hy h

/-- What stands at the head of a text and ends before the last character of its first
part stands there without the second part. -/
theorem scan_append {c : Char} (h : (scan c (u ++ v)).2 < u.length) :
    scan c u = scan c (u ++ v) := by
  have hne : u ≠ [] := List.ne_nil_of_length_pos (Nat.zero_lt_of_lt h)
  unfold scan at h ⊢
  rw [head?_append hne] at h ⊢
  refine ite_eq_ite_of_lt h (fun h => ?_) fun h => ?_
  · rw [takeWhile_append_of_lt h]
  refine ite_eq_ite_of_lt h (fun h => ?_) fun h => ?_
  · rw [takeWhile_append_of_lt h]
  refine ite_eq_ite_of_lt h (fun h => ?_) fun h => ?_
  · rw [takeWhile_append_of_lt h]
  refine ite_eq_ite_of_lt h (fun h => ?_) fun h => ?_
  · have hdrop : (u ++ v).drop 1 = u.drop 1 ++ v :=
      List.drop_append_of_le_length (List.length_pos_iff.2 hne)
    simp only [hdrop] at h ⊢
    by_cases hhex : (c == '0' && u.head? == some 'x' &&
        !((u.drop 1 ++ v).takeWhile continuesHex).isEmpty) = true
    · rw [if_pos hhex] at h ⊢
      have hlt : ((u.drop 1 ++ v).takeWhile continuesHex).length < (u.drop 1).length := by
        rw [List.length_drop]
        exact Nat.lt_sub_of_add_lt h
      rw [takeWhile_append_of_lt hlt, if_pos hhex]
    · have hno : ¬(c == '0' && u.head? == some 'x' &&
          !((u.drop 1).takeWhile continuesHex).isEmpty) = true := by
        simp only [Bool.and_eq_true, Bool.not_eq_true', List.isEmpty_eq_false_iff] at hhex ⊢
        exact fun hyes => hhex ⟨hyes.1, takeWhile_append_ne_nil hyes.2⟩
      rw [if_neg hhex] at h ⊢
      rw [if_neg hno, takeWhile_append_of_lt h]
  refine ite_eq_ite_of_lt h (fun h => quoted_append h) fun h => ?_
  exact ite_eq_ite_of_lt h (fun h => quoted_append h) fun _ => rfl

theorem quotedRun_le (quote : Char) (n : Nat) (cs : List Char) :
    quotedRun quote n cs ≤ n + cs.length := by
  fun_induction quotedRun quote n cs <;> simp only [List.length_cons, List.length_nil] <;> omega

theorem quoted_le (quote : Char) (closed cut : Lexeme) (cs : List Char) :
    (quoted quote closed cut cs).2 ≤ cs.length := by
  have hrun := quotedRun_le quote 0 cs
  unfold quoted
  dsimp only
  split
  · rename_i hclosed
    have hne : cs.drop (quotedRun quote 0 cs) ≠ [] := by
      intro hnil
      simp [hnil] at hclosed
    have := List.length_pos_iff.2 hne
    rw [List.length_drop] at this
    omega
  · omega

/-- No piece reaches past the end of its text. -/
theorem scan_le (c : Char) (cs : List Char) : (scan c cs).2 ≤ cs.length := by
  unfold scan
  split
  · exact (List.takeWhile_prefix _).length_le
  split
  · exact (List.takeWhile_prefix _).length_le
  split
  · exact (List.takeWhile_prefix _).length_le
  split
  · dsimp only
    split
    · rename_i hhex
      have hle := (List.takeWhile_prefix (l := cs.drop 1) continuesHex).length_le
      rw [List.length_drop] at hle
      have hne : cs ≠ [] := by
        intro hnil
        simp [hnil] at hhex
      have := List.length_pos_iff.2 hne
      omega
    · exact (List.takeWhile_prefix _).length_le
  split
  · exact quoted_le ..
  split
  · exact quoted_le ..
  · split <;> exact Nat.zero_le _

/-- A token is a literal, a word, or a sign of one character. -/
theorem scan_token {c : Char} {kind : TokenKind} {n : Nat} {cs : List Char}
    (h : scan c cs = (.token kind, n)) :
    kind ∈ [TokenKind.integer, .string, .character] ∨ (∃ word, kind = .ofWord word) ∨
      (TokenKind.ofSign? c = some kind ∧ n = 0) := by
  unfold scan at h
  split at h
  · cases h
  split at h
  · cases h
  split at h
  · cases h
    exact .inr (.inl ⟨_, rfl⟩)
  split at h
  · dsimp only at h
    split at h <;> (cases h; exact .inl (by decide))
  split at h
  · unfold quoted at h
    dsimp only at h
    split at h
    · cases h
      exact .inl (by decide)
    · cases h
  split at h
  · unfold quoted at h
    dsimp only at h
    split at h
    · cases h
      exact .inl (by decide)
    · cases h
  · split at h
    · rename_i hsign
      cases h
      exact .inr (.inr ⟨hsign, rfl⟩)
    · cases h

/-- The kinds of the signs that items end with. -/
def terminators : List TokenKind := [.semicolon, .rightBrace]

theorem ofWord_not_terminator (word : String) : TokenKind.ofWord word ∉ terminators := by
  unfold TokenKind.ofWord
  split <;> decide

/-- The signs that items end with are one character each, whatever comes after. -/
theorem scan_terminator {c : Char} {kind : TokenKind} {n : Nat} {cs : List Char}
    (h : scan c cs = (.token kind, n)) (hkind : kind ∈ terminators) (cs' : List Char) :
    n = 0 ∧ scan c cs' = (.token kind, 0) := by
  simp only [terminators, List.mem_cons, List.not_mem_nil, or_false] at hkind
  rcases scan_token h with hliteral | ⟨word, rfl⟩ | ⟨hsign, hn⟩
  · rcases hkind with rfl | rfl <;> simp at hliteral
  · exact absurd (by simpa [terminators] using hkind) (ofWord_not_terminator word)
  · refine ⟨hn, ?_⟩
    unfold TokenKind.ofSign? at hsign
    rcases hkind with rfl | rfl <;> split at hsign <;> simp at hsign <;> rfl

end Lexeme

/-- The tokens of a text that starts at a byte offset, as a relation: a text is nothing, a
gap before a text, or a token before a text. What a piece is depends on what follows it. -/
inductive Lexes : Nat → List Char → List Token → Prop where
  | nil (o : Nat) : Lexes o [] []
  | gap {o : Nat} {c : Char} {written rest : List Char} {tokens : List Token} :
      Lexeme.scan c (written ++ rest) = (.gap, written.length) →
      Lexes (o + utf8Length (c :: written)) rest tokens →
      Lexes o (c :: (written ++ rest)) tokens
  | token {o : Nat} {c : Char} {written rest : List Char} {kind : TokenKind}
      {tokens : List Token} :
      Lexeme.scan c (written ++ rest) = (.token kind, written.length) →
      Lexes (o + utf8Length (c :: written)) rest tokens →
      Lexes o (c :: (written ++ rest))
        (⟨kind, String.ofList (c :: written), ⟨o, o + utf8Length (c :: written)⟩⟩ :: tokens)

theorem Lexeme.length_take_of_scan {c : Char} {rest : List Char} {lexeme : Lexeme} {n : Nat}
    (h : Lexeme.scan c rest = (lexeme, n)) : (rest.take n).length = n := by
  have hle := Lexeme.scan_le c rest
  rw [h] at hle
  exact List.length_take_of_le hle

/-- The lexer finds the tokens a text has. -/
theorem lexFrom_eq_ok {o : Nat} {cs : List Char} {tokens : List Token} :
    lexFrom o cs = .ok tokens ↔ Lexes o cs tokens := by
  constructor
  · intro h
    fun_induction lexFrom o cs generalizing tokens with
    | case1 o =>
      cases h
      exact .nil o
    | case2 o c rest n written span hscan =>
      rename_i ih
      have hlen := Lexeme.length_take_of_scan hscan
      have hgap := Lexes.gap (by rw [List.take_append_drop, hscan, hlen]) (ih h)
      rwa [List.take_append_drop] at hgap
    | case3 o c rest n written span kind hscan =>
      rename_i ih
      have hlen := Lexeme.length_take_of_scan hscan
      cases hmore : lexFrom span.stop (rest.drop n) with
      | error e =>
        rw [hmore] at h
        cases h
      | ok more =>
        rw [hmore] at h
        cases h
        have htoken := Lexes.token (by rw [List.take_append_drop, hscan, hlen]) (ih hmore)
        rwa [List.take_append_drop] at htoken
    | case4 => cases h
    | case5 => cases h
  · intro h
    induction h with
    | nil o => rw [lexFrom]
    | gap hscan _ ih =>
      rw [lexFrom, hscan]
      simpa using ih
    | token hscan _ ih =>
      rw [lexFrom, hscan]
      simp [ih]

namespace Lexes

variable {o : Nat} {cs : List Char} {t : Token} {tokens before after : List Token}

/-- Elsewhere a text has the same tokens, moved along. -/
theorem moved {f : Nat → Nat} {o' : Nat} (h : Lexes o cs tokens)
    (hf : ∀ n, f (o + n) = o' + n) : Lexes o' cs (tokens.map (Token.moved f)) := by
  induction h generalizing o' with
  | nil => exact .nil o'
  | gap hscan _ ih => exact .gap hscan (ih fun n => by rw [Nat.add_assoc, hf, Nat.add_assoc])
  | @token o c written rest kind tokens hscan _ ih =>
    have hstart : f o = o' := hf 0
    have hrest : Lexes (o' + utf8Length (c :: written)) rest (tokens.map (Token.moved f)) :=
      ih fun n => by rw [Nat.add_assoc, hf, Nat.add_assoc]
    have htoken := Lexes.token hscan hrest
    rw [List.map_cons]
    simpa only [Token.moved, Span.moved, hf, hstart] using htoken

/-- A text can be cut before any of its tokens. -/
theorem cut_before (h : Lexes o cs (before ++ t :: after)) :
    ∃ u v, cs = u ++ v ∧ t.span.start = o + utf8Length u ∧
      Lexes (o + utf8Length u) v (t :: after) := by
  generalize htokens : before ++ t :: after = tokens at h
  induction h generalizing before with
  | nil => simp at htokens
  | @gap o c written rest tokens hscan hrest ih =>
    obtain ⟨u, v, rfl, hstart, hv⟩ := ih htokens
    rw [Nat.add_assoc, ← utf8Length_append] at hstart hv
    exact ⟨c :: written ++ u, v, by simp, hstart, hv⟩
  | @token o c written rest kind tokens hscan hrest ih =>
    rcases before with _ | ⟨t', before⟩
    · simp only [List.nil_append, List.cons.injEq] at htokens
      obtain ⟨rfl, rfl⟩ := htokens
      exact ⟨[], _, rfl, rfl, .token hscan hrest⟩
    · simp only [List.cons_append, List.cons.injEq] at htokens
      obtain ⟨u, v, rfl, hstart, hv⟩ := ih htokens.2
      rw [Nat.add_assoc, ← utf8Length_append] at hstart hv
      exact ⟨c :: written ++ u, v, by simp, hstart, hv⟩

theorem eq_nil (h : Lexes o [] tokens) : tokens = [] := by
  cases h
  rfl

/-- A text can be cut after any token that ends an item. -/
theorem cut_after (h : Lexes o cs (before ++ t :: after)) (ht : t.kind ∈ Lexeme.terminators) :
    ∃ u v, cs = u ++ v ∧ t.span.stop = o + utf8Length u ∧ Lexes o u (before ++ [t]) ∧
      Lexes (o + utf8Length u) v after := by
  -- the part before the cut is not at its end before the last token, so that the pieces there
  -- are scanned as in the whole text
  have hscan' {c : Char} {written u v : List Char} {lexeme : Lexeme} (hne : u ≠ [])
      (hscan : Lexeme.scan c (written ++ (u ++ v)) = (lexeme, written.length)) :
      Lexeme.scan c (written ++ u) = (lexeme, written.length) := by
    have hlen := List.length_pos_iff.2 hne
    rw [← List.append_assoc] at hscan
    rw [Lexeme.scan_append, hscan]
    rw [hscan, List.length_append]
    omega
  generalize htokens : before ++ t :: after = tokens at h
  induction h generalizing before with
  | nil => simp at htokens
  | @gap o c written rest tokens hscan hrest ih =>
    obtain ⟨u, v, rfl, hstop, hu, hv⟩ := ih htokens
    have hne : u ≠ [] := by
      rintro rfl
      simpa using hu.eq_nil
    rw [Nat.add_assoc, ← utf8Length_append] at hstop hv
    exact ⟨c :: written ++ u, v, by simp, hstop, .gap (hscan' hne hscan) hu, hv⟩
  | @token o c written rest kind tokens hscan hrest ih =>
    rcases before with _ | ⟨t', before⟩
    · simp only [List.nil_append, List.cons.injEq] at htokens
      obtain ⟨rfl, rfl⟩ := htokens
      obtain ⟨hzero, hsign⟩ := Lexeme.scan_terminator hscan ht []
      obtain rfl := List.eq_nil_of_length_eq_zero hzero
      exact ⟨[c], rest, rfl, rfl, @Lexes.token o c [] [] kind [] hsign (.nil _), hrest⟩
    · simp only [List.cons_append, List.cons.injEq] at htokens
      obtain ⟨rfl, htokens⟩ := htokens
      obtain ⟨u, v, rfl, hstop, hu, hv⟩ := ih htokens
      have hne : u ≠ [] := by
        rintro rfl
        simpa using hu.eq_nil
      rw [Nat.add_assoc, ← utf8Length_append] at hstop hv
      exact ⟨c :: written ++ u, v, by simp, hstop, .token (hscan' hne hscan) hu, hv⟩

/-- Tokens are not empty, and each starts where the one before it ends or later. -/
theorem inOrder (h : Lexes o cs tokens) :
    (∀ t ∈ tokens, o ≤ t.span.start ∧ t.span.start < t.span.stop) ∧
      tokens.Pairwise fun a b => a.span.stop ≤ b.span.start := by
  induction h with
  | nil => simp
  | @gap o c written rest tokens _ _ ih =>
    refine ⟨fun t ht => ?_, ih.2⟩
    have := ih.1 t ht
    omega
  | @token o c written rest kind tokens _ _ ih =>
    have hpos := utf8Length_cons_pos c written
    refine ⟨List.forall_mem_cons.2 ⟨?_, fun t ht => ?_⟩, List.pairwise_cons.2 ⟨?_, ih.2⟩⟩
    · dsimp only
      omega
    · have := ih.1 t ht
      omega
    · exact fun t ht => (ih.1 t ht).1

end Lexes

end IncrementalBuild
