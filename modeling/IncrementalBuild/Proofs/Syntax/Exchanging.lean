import IncrementalBuild.Proofs.Syntax.Joining
import IncrementalBuild.Proofs.Syntax.Scanning
import IncrementalBuild.Proofs.Syntax.Slices

/-!
# What comes after a sign can be exchanged

A colon and a closing parenthesis end whatever is before them. So the text up to the next token
after one, with the blanks and comments there, has its tokens whatever comes next.

## Main results

* `Lexes.exists_exchange`: the tokens up to a colon or parenthesis, before any other text.
* `Lexes.exists_after_word`: what comes after an identifier does not go on it.
-/

set_option autoImplicit false

namespace IncrementalBuild

namespace Lexeme

variable {c d : Char} {x u v v' : List Char} {lexeme : Lexeme} {n : Nat}

/-- Whether a character ends what is before it, be it a sign, a word or a number, and is alone
in its own token. -/
def isDivider (d : Char) : Bool := d == ':' || d == ')'

theorem isDivider_iff : isDivider d = true ↔ d = ':' ∨ d = ')' := by
  simp [isDivider]

/-- The kinds of the signs that divide. -/
def dividers : List TokenKind := [.colon, .rightParen]

/-- What a literal in quotes is does not depend on what comes after a divider beyond it. -/
theorem quotedRun_exchange {quote : Char} (hquote : quote ∈ ['"', '\'']) (hd : isDivider d = true)
    (v v' : List Char) (h : quotedRun quote n (x ++ d :: v) ≤ n + x.length) :
    quotedRun quote n (x ++ d :: v') = quotedRun quote n (x ++ d :: v) ∧
      quotedRun quote n (x ++ d :: v) < n + x.length := by
  simp only [List.mem_cons, List.not_mem_nil, or_false] at hquote
  have hplain (w : List Char) (n : Nat) :
      quotedRun quote n (d :: w) = quotedRun quote (n + 1) w := by
    rcases isDivider_iff.1 hd with rfl | rfl <;> rcases hquote with rfl | rfl <;> rfl
  have hescaped (w : List Char) (n : Nat) :
      quotedRun quote n ('\\' :: d :: w) = quotedRun quote (n + 2) w := by
    rcases isDivider_iff.1 hd with rfl | rfl <;> rfl
  fun_induction quotedRun quote n x with
  | case1 n =>
    rw [List.nil_append, hplain] at h
    have hle := le_quotedRun quote (n + 1) v
    simp only [List.length_nil] at h
    omega
  | case2 n =>
    rw [List.cons_append, List.nil_append, hescaped] at h
    have hle := le_quotedRun quote (n + 2) v
    simp only [List.length_singleton] at h
    omega
  | case3 n c rest hc => simp [quotedRun, hc]
  | case4 n c rest hc ih =>
    simp only [List.cons_append, quotedRun, if_neg hc, List.length_cons] at h ih ⊢
    have := ih (by omega)
    omega
  | case5 n c rest hslash hc =>
    simp only [List.cons_append, quotedRun.eq_4 _ _ _ _ hslash, if_pos hc, List.length_cons]
    exact ⟨trivial, by omega⟩
  | case6 n c rest hslash hc ih =>
    simp only [List.cons_append, quotedRun.eq_4 _ _ _ _ hslash, if_neg hc, List.length_cons]
      at h ih ⊢
    have := ih (by omega)
    omega

theorem quoted_exchange {quote : Char} (hquote : quote ∈ ['"', '\'']) (hd : isDivider d = true)
    {closed cut : Lexeme} (v v' : List Char)
    (h : (quoted quote closed cut (x ++ d :: v)).2 ≤ x.length) :
    quoted quote closed cut (x ++ d :: v') = quoted quote closed cut (x ++ d :: v) := by
  have hle : quotedRun quote 0 (x ++ d :: v) ≤ 0 + x.length := by
    unfold quoted at h
    dsimp only at h
    split at h <;> (dsimp only at h; omega)
  obtain ⟨heq, hlt⟩ := quotedRun_exchange hquote hd v v' hle
  rw [Nat.zero_add] at hlt
  have hdrop (w : List Char) : ((x ++ d :: w).drop (quotedRun quote 0 (x ++ d :: v))).head? =
      (x.drop (quotedRun quote 0 (x ++ d :: v))).head? := by
    rw [List.drop_append_of_le_length hlt.le, head?_append]
    rw [ne_eq, List.drop_eq_nil_iff]
    omega
  rw [quoted, quoted, heq, hdrop, hdrop]

theorem takeWhile_exchange {p : Char → Bool} (hd : p d = false) (x v v' : List Char) :
    (x ++ d :: v').takeWhile p = (x ++ d :: v).takeWhile p := by
  rw [takeWhile_append_stop hd, takeWhile_append_stop hd]

/-- What stands before a divider does not depend on what comes after the divider. -/
theorem scan_exchange (hd : isDivider d = true) (h : scan c (x ++ d :: v) = (lexeme, n))
    (hn : n ≤ x.length) (v' : List Char) : scan c (x ++ d :: v') = (lexeme, n) := by
  have hlt : (scan c (x ++ d :: v)).2 < x.length + 1 := by
    rw [h]
    omega
  rw [← h]
  have hstops : isGap d = false ∧ continuesWord d = false ∧ continuesDecimal d = false ∧
      continuesHex d = false ∧ d ≠ 'x' := by
    rcases isDivider_iff.1 hd with rfl | rfl <;> decide
  obtain ⟨hgap, hword, hdecimal, hhex, hx⟩ := hstops
  have hhead : (x ++ d :: v').head? = (x ++ d :: v).head? := by
    cases x <;> rfl
  unfold scan at hlt ⊢
  rw [hhead]
  refine ite_eq_ite_of_lt hlt (fun _ => ?_) fun hlt => ?_
  · rw [takeWhile_exchange hgap x v v']
  refine ite_eq_ite_of_lt hlt (fun hlt => ?_) fun hlt => ?_
  · -- the comment ends at the end of a line before the divider
    have hsplit (w : List Char) : x ++ d :: w = (x ++ [d]) ++ w := by simp
    rw [hsplit v] at hlt ⊢
    have hends : ((x ++ [d]).takeWhile (· != '\n')).length < (x ++ [d]).length := by
      rw [takeWhile_append_of_lt (by simpa using hlt), List.length_append]
      exact hlt
    rw [hsplit v', List.takeWhile_append, if_neg hends.ne,
      takeWhile_append_of_lt (by simpa using hlt)]
  refine ite_eq_ite_of_lt hlt (fun _ => ?_) fun hlt => ?_
  · rw [takeWhile_exchange hword x v v']
  refine ite_eq_ite_of_lt hlt (fun _ => ?_) fun hlt => ?_
  · rw [takeWhile_exchange hdecimal x v v']
    cases x with
    | nil => simp [hx]
    | cons e x =>
      simp only [List.cons_append, List.drop_one, List.tail_cons, takeWhile_exchange hhex x v v']
  refine ite_eq_ite_of_lt hlt (fun hlt => ?_) fun hlt => ?_
  · exact quoted_exchange (by decide) hd v v' (by omega)
  refine ite_eq_ite_of_lt hlt (fun hlt => ?_) fun _ => rfl
  exact quoted_exchange (by decide) hd v v' (by omega)

/-- A run that ends where a part of a text does is not gone on after it. -/
theorem stops_of_length_takeWhile {p : Char → Bool} {w rest : List Char}
    (h : ((w ++ rest).takeWhile p).length = w.length) : ∀ d ∈ rest.head?, p d = false := by
  intro d hd
  obtain ⟨more, rfl⟩ := List.head?_eq_some_iff.1 hd
  rw [← Bool.not_eq_true]
  intro hp
  rw [List.takeWhile_append] at h
  split at h
  · rw [List.takeWhile_cons_of_pos hp, List.length_append, List.length_cons] at h
    omega
  · contradiction

/-- A comment goes on to the end of its line. -/
theorem newline_of_comment {written rest : List Char} (hc : isGap c = false)
    (h : scan c (written ++ rest) = (.gap, written.length)) (hrest : rest ≠ []) :
    ∃ more, rest = '\n' :: more := by
  obtain ⟨d, more, rfl⟩ := List.exists_cons_of_ne_nil hrest
  have hpiece := piece_of_scan h rfl
  rw [List.take_left] at hpiece
  cases hpiece with
  | blanks hblank =>
    rw [hc] at hblank
    cases hblank
  | @comment w hw =>
    rw [List.cons_append, scan_comment] at h
    have hd := stops_of_length_takeWhile (Nat.succ.inj (congrArg Prod.snd h)) d rfl
    exact ⟨more, by rw [show d = '\n' by simpa using hd]⟩

/-- A token of a dividing kind is a divider, and is one whatever comes after. -/
theorem scan_divider {kind : TokenKind} (h : scan c u = (.token kind, n))
    (hkind : kind ∈ dividers) (v : List Char) :
    isDivider c = true ∧ n = 0 ∧ scan c v = (.token kind, 0) := by
  rcases scan_token h with hliteral | ⟨word, rfl⟩ | ⟨hsign, rfl⟩
  · simp only [dividers, List.mem_cons, List.not_mem_nil, or_false] at hkind
    rcases hkind with rfl | rfl <;> simp at hliteral
  · have hword : TokenKind.ofWord word ∉ dividers := by
      unfold TokenKind.ofWord
      split <;> decide
    exact absurd hkind hword
  · simp only [dividers, List.mem_cons, List.not_mem_nil, or_false] at hkind
    unfold TokenKind.ofSign? at hsign
    rcases hkind with rfl | rfl <;> split at hsign <;> simp at hsign <;> exact ⟨rfl, rfl, rfl⟩

/-- An identifier starts as words do and reaches as far as a word can. -/
theorem scan_identifier (h : scan c u = (.token .identifier, n)) :
    startsWord c = true ∧ n = (u.takeWhile continuesWord).length := by
  have hpiece := piece_of_scan h rfl
  have hstart : startsWord c = true := by
    generalize u.take n = w at hpiece
    cases hpiece with
    | word hstart => exact hstart
    | sign hsign =>
      rcases TokenKind.ofSign?_eq_some hsign with ⟨hk, -⟩ | hk <;> cases hk
  rw [scan_word hstart] at h
  exact ⟨hstart, (congrArg Prod.snd h).symm⟩

end Lexeme

namespace Lexes

variable {o : Nat} {c : Char} {cs : List Char} {s t : Token} {before after tokens : List Token}

theorem start_pos_of_blank (hc : Lexeme.isGap c = true) (h : Lexes o (c :: cs) (t :: after)) :
    o < t.span.start := by
  cases h with
  | @gap _ _ written rest _ hscan hrest =>
    have hpos := utf8Length_cons_pos c written
    have hle := (hrest.inOrder.1 t (List.mem_cons_self ..)).1
    omega
  | @token _ _ written rest kind _ hscan hrest => cases (Lexeme.run_of_blank hc hscan).1

/-- The blanks and comments before a token can be before anything. -/
theorem exists_gaps (h : Lexes o cs (t :: after)) :
    ∃ g v, cs = g ++ v ∧ t.span.start = o + utf8Length g ∧
      Lexes (o + utf8Length g) v (t :: after) ∧
      ∀ v' tokens, Lexes (o + utf8Length g) v' tokens → Lexes o (g ++ v') tokens := by
  generalize htokens : t :: after = tokens at h
  induction h with
  | nil => cases htokens
  | @token o c written rest kind tokens hscan hrest =>
    cases htokens
    exact ⟨[], _, rfl, rfl, .token hscan hrest, fun _ _ hv => hv⟩
  | @gap o c written rest tokens hscan hrest ih =>
    subst htokens
    obtain ⟨g, v, rfl, hstart, hv, hmore⟩ := ih rfl
    rw [Nat.add_assoc, ← utf8Length_append] at hstart hv
    refine ⟨c :: written ++ g, v, by simp, hstart, hv, fun v' tokens hv' => ?_⟩
    rw [utf8Length_append, ← Nat.add_assoc] at hv'
    have hrest' := hmore v' tokens hv'
    rw [List.append_assoc]
    cases hc : Lexeme.isGap c with
    | true =>
      have hrun := (Lexeme.run_of_blank hc hscan).2
      refine blanks (List.forall_mem_cons.2 ⟨hc, fun d hd => ?_⟩) hrest'
      rw [← hrun] at hd
      exact List.mem_takeWhile_imp hd
    | false =>
      -- the line of the comment ends before the token
      have hne : g ++ v ≠ [] := fun hnil => by
        rw [hnil] at hrest
        cases hrest.eq_nil
      obtain ⟨more, hline⟩ := Lexeme.newline_of_comment hc hscan hne
      cases g with
      | nil =>
        rw [List.nil_append] at hline
        subst hline
        have hlt := hv.start_pos_of_blank rfl
        rw [List.append_nil] at hlt
        rw [hstart, List.append_nil] at hlt
        exact absurd hlt (Nat.lt_irrefl _)
      | cons d g =>
        cases hline
        refine .gap ?_ hrest'
        rw [List.cons_append, Lexeme.scan_newline hc] at hscan ⊢
        exact hscan

/-- The text up to a token after a divider has its tokens before any other text. -/
theorem exists_exchange (h : Lexes o cs (before ++ s :: t :: after))
    (hs : s.kind ∈ Lexeme.dividers) :
    ∃ x d y v, cs = x ++ d :: (y ++ v) ∧ Lexeme.isDivider d = true ∧
      t.span.start = o + utf8Length (x ++ d :: y) ∧
      Lexes (o + utf8Length (x ++ d :: y)) v (t :: after) ∧
      ∀ v' tokens, Lexes (o + utf8Length (x ++ d :: y)) v' tokens →
        Lexes o (x ++ d :: (y ++ v')) (before ++ s :: tokens) := by
  have hexchange {c d : Char} {written x v : List Char} {lexeme : Lexeme}
      (hd : Lexeme.isDivider d = true)
      (hscan : Lexeme.scan c (written ++ (x ++ d :: v)) = (lexeme, written.length))
      (v' : List Char) :
      Lexeme.scan c (written ++ (x ++ d :: v')) = (lexeme, written.length) := by
    rw [← List.append_assoc] at hscan ⊢
    exact Lexeme.scan_exchange hd hscan (by simp) v'
  generalize htokens : before ++ s :: t :: after = tokens at h
  induction h generalizing before with
  | nil => simp at htokens
  | @gap o c written rest tokens hscan hrest ih =>
    obtain ⟨x, d, y, v, rfl, hd, hstart, hv, hmore⟩ := ih htokens
    rw [Nat.add_assoc, ← utf8Length_append] at hstart hv
    refine ⟨c :: written ++ x, d, y, v, by simp, hd, by simpa using hstart, by simpa using hv,
      fun v' tokens' hv' => ?_⟩
    rw [List.append_assoc, utf8Length_append, ← Nat.add_assoc] at hv'
    have hgap := Lexes.gap (hexchange hd hscan (y ++ v')) (hmore v' tokens' hv')
    simpa using hgap
  | @token o c written rest kind tokens hscan hrest ih =>
    rcases before with _ | ⟨t', before⟩
    · simp only [List.nil_append, List.cons.injEq] at htokens
      obtain ⟨rfl, rfl⟩ := htokens
      obtain ⟨hd, hlength, -⟩ := Lexeme.scan_divider hscan hs []
      obtain rfl := List.eq_nil_of_length_eq_zero hlength
      obtain ⟨g, v, rfl, hstart, hv, hmore⟩ := hrest.exists_gaps
      rw [Nat.add_assoc, ← utf8Length_append] at hstart hv
      refine ⟨[], c, g, v, rfl, hd, hstart, hv, fun v' tokens' hv' => ?_⟩
      have hsign := (Lexeme.scan_divider hscan hs (g ++ v')).2.2
      have hrest' : Lexes (o + utf8Length [c] + utf8Length g) v' tokens' := by
        rw [Nat.add_assoc, ← utf8Length_append]
        exact hv'
      exact @Lexes.token o c [] (g ++ v') kind tokens' hsign (hmore v' tokens' hrest')
    · simp only [List.cons_append, List.cons.injEq] at htokens
      obtain ⟨rfl, htokens⟩ := htokens
      obtain ⟨x, d, y, v, rfl, hd, hstart, hv, hmore⟩ := ih htokens
      rw [Nat.add_assoc, ← utf8Length_append] at hstart hv
      refine ⟨c :: written ++ x, d, y, v, by simp, hd, by simpa using hstart, by simpa using hv,
        fun v' tokens' hv' => ?_⟩
      rw [List.append_assoc, utf8Length_append, ← Nat.add_assoc] at hv'
      have htoken := Lexes.token (hexchange hd hscan (y ++ v')) (hmore v' tokens' hv')
      simpa using htoken

/-- What comes after an identifier does not go on it. -/
theorem exists_after_word (h : Lexes o cs (before ++ t :: after)) (ht : t.kind = .identifier) :
    ∃ u v, cs = u ++ v ∧ t.span.stop = o + utf8Length u ∧ Lexes (o + utf8Length u) v after ∧
      ∀ c ∈ v.head?, Lexeme.continuesWord c = false := by
  obtain ⟨u, v, rfl, hstart, hv⟩ := h.cut_before
  generalize htokens : t :: after = tokens at hv
  cases hv with
  | nil => cases htokens
  | @gap _ c written rest _ hscan hrest =>
    subst htokens
    have hpos := utf8Length_cons_pos c written
    have hle := (hrest.inOrder.1 t (List.mem_cons_self ..)).1
    omega
  | @token _ c written rest kind _ hscan hrest =>
    cases htokens
    subst ht
    rw [Nat.add_assoc, ← utf8Length_append] at hrest
    refine ⟨u ++ c :: written, rest, by simp, ?_, hrest, fun d hd => ?_⟩
    · rw [utf8Length_append, Nat.add_assoc]
    · have hlength := (Lexeme.scan_identifier hscan).2
      exact Lexeme.stops_of_length_takeWhile hlength.symm d hd

end Lexes

end IncrementalBuild
