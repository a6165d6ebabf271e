import IncrementalBuild.Proofs.Session.Outcome
import IncrementalBuild.Proofs.Syntax.Slices
import IncrementalBuild.Proofs.Syntax.Spans

/-!
# Declarations in other places

What a declaration is found to be does not depend on where in its file it stands, as long as
neither the analyzer nor the generator looks at places. So two declarations with the same bytes
are both good or neither is.
-/

set_option autoImplicit false

namespace IncrementalBuild

/-! ## Meanings -/

theorem TypeExpr.meanings?_map {g : TypeExpr → TypeExpr} {es : List TypeExpr}
    (h : ∀ e ∈ es, (g e).meaning? = e.meaning?) : meanings? (es.map g) = meanings? es := by
  induction es with
  | nil => rfl
  | cons e es ih =>
    obtain ⟨hhead, htail⟩ := List.forall_mem_cons.1 h
    rw [List.map_cons, meanings?, meanings?, hhead, ih htail]

@[simp]
theorem TypeExpr.meaning?_moved (f : Nat → Nat) (e : TypeExpr) :
    (e.moved f).meaning? = e.meaning? := by
  fun_induction moved f e with
  | case1 name span => rw [meaning?, meaning?]
  | case2 isConst isVolatile isMany pointee span ih => rw [meaning?, meaning?, ih]
  | case3 length element span ih => rw [meaning?, meaning?, ih]
  | case4 params result span ihparams ihresult =>
    rw [meaning?, meaning?, ihresult, meanings?_map ihparams]

@[simp]
theorem FunctionItem.meaning?_moved (f : Nat → Nat) (item : FunctionItem) :
    (item.moved f).meaning? = item.meaning? := by
  have htypes : (item.moved f).params.map (·.type) =
      (item.params.map (·.type)).map (TypeExpr.moved f) := by
    simp [moved, Param.moved]
  rw [meaning?, meaning?, htypes, TypeExpr.meanings?_map fun e _ => e.meaning?_moved f]
  simp [moved]

/-! ## Bodies -/

/-- The body of a function lies in the text. -/
theorem FunctionItem.body_within {text : String} {f : FunctionItem}
    (h : .function f ∈ (parse text).items) {b : Span} (hb : b ∈ f.body) :
    b.stop ≤ (bytesOf text).length := by
  have hitem : f.LiesIn (bytesOf text) := (parse_liesIn text).2 _ h
  exact (hitem.body b hb).stop_le

theorem innerSource_eq {file : SourceFile} {block : Span}
    (h : block.stop ≤ (bytesOf file.text).length) :
    innerSource file block = (decode ⟨(slice (slice (bytesOf file.text) block)
      ⟨1, block.stop - 1 - block.start⟩).toArray⟩).toOption.getD "" := by
  have hinner : (⟨1, block.stop - 1 - block.start⟩ : Span) =
      Span.moved (· - block.start) ⟨block.start + 1, block.stop - 1⟩ := by
    simp [Span.moved]
  have hslice : slice (slice (bytesOf file.text) block)
      (Span.moved (· - block.start) ⟨block.start + 1, block.stop - 1⟩) =
        slice (bytesOf file.text) ⟨block.start + 1, block.stop - 1⟩ :=
    slice_slice (Nat.le_succ block.start) (Nat.sub_le block.stop 1) h
  rw [hinner, hslice]
  rfl

/-- Functions that are one in two places have bodies with the same source. -/
theorem FunctionItem.SameIn.innerSource_eq {file file' : SourceFile} {f f' : FunctionItem}
    (h : SameIn file.text f file'.text f') (hf : .function f ∈ (parse file.text).items)
    (hf' : .function f' ∈ (parse file'.text).items) :
    f.body.map (innerSource file) = f'.body.map (innerSource file') := by
  obtain ⟨⟨g, hg, hg'⟩, hbody⟩ := h
  have hmoved : f.body = g.body.map (Span.moved (· + f.span.start)) :=
    congrArg FunctionItem.body hg.symm
  have hmoved' : f'.body = g.body.map (Span.moved (· + f'.span.start)) :=
    congrArg FunctionItem.body hg'.symm
  cases hb : g.body with
  | none =>
    rw [hb] at hmoved hmoved'
    rw [hmoved, hmoved']
    rfl
  | some b =>
    rw [hb, Option.map_some] at hmoved hmoved'
    have hinside := f.body_within hf hmoved
    have hinside' := f'.body_within hf' hmoved'
    rw [hmoved, hmoved', Option.map_some, Option.map_some, Option.some_inj] at hbody
    rw [hmoved, hmoved', Option.map_some, Option.map_some, IncrementalBuild.innerSource_eq hinside,
      IncrementalBuild.innerSource_eq hinside', hbody]
    have hspan (n : Nat) : b.stop + n - 1 - (b.start + n) = b.stop - 1 - b.start := by omega
    simp only [Span.moved, hspan]

/-! ## Judges that do not look at places -/

/-- An analyzer does not look at where the parameters of a block are written. -/
def Analyzer.IgnoresSpans (a : Analyzer) : Prop :=
  ∀ r params, params.map (fun p => (p.name, p.type)) = r.params.map (fun p => (p.name, p.type)) →
    a { r with params } = a r

/-- A generator does not look at where a function is written, nor at the number of its name. -/
def CodeGenerator.IgnoresPlace (g : CodeGenerator) : Prop :=
  ∀ call declName bodySpan, g { call with declName, bodySpan } = g call

theorem Analyzer.signature_ignoresSpans : Analyzer.signature.IgnoresSpans := fun _ _ _ => rfl

theorem Analyzer.IgnoresSpans.faulty {a : Analyzer} (h : a.IgnoresSpans)
    (rejects crashes : List String) : (Analyzer.faulty rejects crashes a).IgnoresSpans := by
  intro r params hparams
  unfold Analyzer.faulty
  dsimp only
  rw [h r params hparams]

theorem CodeGenerator.null_ignoresPlace : CodeGenerator.null.IgnoresPlace := fun _ _ _ => rfl

theorem CodeGenerator.faulty_ignoresPlace (fails crashes : List String) :
    (CodeGenerator.faulty fails crashes).IgnoresPlace := fun _ _ _ => rfl

namespace Decl

variable {d d' : Decl} {analyzer : Analyzer} {generator : CodeGenerator}

theorem item_eq_of_sameIn (h : FunctionItem.SameIn d.file.text d.item d'.file.text d'.item) :
    d.item.meaning? = d'.item.meaning? ∧ d.isExport = d'.isExport ∧
      TypeReading.convention d.item = TypeReading.convention d'.item ∧
      d.item.params.map (·.name) = d'.item.params.map (·.name) := by
  obtain ⟨⟨g, hg, hg'⟩, -⟩ := h
  have hboth (f : FunctionItem) (n : Nat) (hf : g.moved (· + n) = f) :
      f.meaning? = g.meaning? ∧ f.isExport = g.isExport ∧
        TypeReading.convention f = TypeReading.convention g ∧
        f.params.map (·.name) = g.params.map (·.name) := by
    subst hf
    refine ⟨g.meaning?_moved _, rfl, rfl, ?_⟩
    simp [FunctionItem.moved, Param.moved]
  obtain ⟨hmeaning, hexport, hconvention, hnames⟩ := hboth _ _ hg
  obtain ⟨hmeaning', hexport', hconvention', hnames'⟩ := hboth _ _ hg'
  exact ⟨hmeaning.trans hmeaning'.symm, hexport.trans hexport'.symm,
    hconvention.trans hconvention'.symm, hnames.trans hnames'.symm⟩

theorem params_request (d : Decl) (params : List Ty) (result : Ty) (body : Span) :
    (d.request params result body).params.map (fun p => (p.name, p.type)) =
      (d.item.params.map (·.name)).zip params := by
  rw [List.zip_map_left, request, List.map_map]
  rfl

/-- A declaration is found to be good wherever it stands. -/
theorem good_iff_of_sameIn (hanalyzer : analyzer.IgnoresSpans)
    (hgenerator : generator.IgnoresPlace) (hsymbol : d.symbol = d'.symbol)
    (hd : .function d.item ∈ (parse d.file.text).items)
    (hd' : .function d'.item ∈ (parse d'.file.text).items)
    (h : FunctionItem.SameIn d.file.text d.item d'.file.text d'.item) :
    (d.finding analyzer).Good generator ↔ (d'.finding analyzer).Good generator := by
  obtain ⟨hmeaning, hexport, hconvention, hnames⟩ := item_eq_of_sameIn h
  have hsource := h.innerSource_eq hd hd'
  unfold finding
  rw [← hmeaning, ← hconvention]
  cases d.item.meaning? with
  | none => simp [Finding.Good]
  | some signature =>
    obtain ⟨params, result⟩ := signature
    dsimp only
    cases hbody : d.item.body with
    | none =>
      rw [hbody, Option.map_none, eq_comm, Option.map_eq_none_iff] at hsource
      rw [hsource]
    | some body =>
      rw [hbody, Option.map_some, eq_comm, Option.map_eq_some_iff] at hsource
      obtain ⟨body', hbody', hsource⟩ := hsource
      have hrequest : analyzer (d.request params result body) =
          analyzer (d'.request params result body') := by
        have hspans := hanalyzer (d'.request params result body')
          (d.request params result body).params ?_
        · rw [← hspans]
          unfold request
          rw [hsymbol, hsource]
        · rw [params_request, params_request, hnames]
      have hcall (type : Ty) :
          generator (d.call type result body) = generator (d'.call type result body') := by
        have hplace := hgenerator (d'.call type result body') d.name body
        rw [← hplace]
        unfold call
        rw [hsymbol, hexport]
      rw [hbody']
      dsimp only
      rw [← hrequest]
      cases analyzer (d.request params result body) with
      | crashed message => exact Iff.rfl
      | rejected code message => exact Iff.rfl
      | accepted =>
        unfold Finding.Good
        dsimp only
        rw [hcall]

end Decl

end IncrementalBuild
