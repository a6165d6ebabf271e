import IncrementalBuild.Proofs.Session.Holders
import IncrementalBuild.Proofs.Session.Problems
import IncrementalBuild.Proofs.Syntax.Spans

/-!
# Where problems point

A session is shown one revision of its root file after another. What a cycle reports is located in
the text that the cycle has read, except for one thing: a label that shows who has kept a name
shows the declaration in the text of which it was made. That is the text of an earlier cycle if the
name was taken then, and the span of the label need not even lie in the text at hand.
-/

set_option autoImplicit false

namespace IncrementalBuild

/-! ## Places in a text -/

/-- A location is that of a span of a text: the span lies in the text, and the line and the column
are those of its start there. -/
structure Location.PointsAt (l : Location) (path text : String) (span : Span) : Prop where
  told : l = .source path span (positionAt (bytesOf text) span.start)
  inside : span.LiesIn (bytesOf text)

/-- All locations of a diagnostic are in a text. -/
structure Diagnostic.PointsInto (p : Diagnostic) (path text : String) : Prop where
  location : ∃ span, p.location.PointsAt path text span
  labels : ∀ l ∈ p.labels, ∃ span, l.location.PointsAt path text span

/-- A diagnostic is about a name of a text that another declaration has kept. It points at the
name, and its label at the name in the text of that declaration. -/
structure Diagnostic.PointsAtNames (p : Diagnostic) (path text : String) (kept : Decl) : Prop where
  location : ∃ span, p.location.PointsAt path text span ∧
    slice (bytesOf text) span = bytesOf kept.symbol
  label : ∃ l, p.labels = [l] ∧
    l.location.PointsAt path kept.file.text kept.item.nameSpan ∧
    slice (bytesOf kept.file.text) kept.item.nameSpan = bytesOf kept.symbol

/-- A declaration is that of a named function of a text. -/
structure Decl.IsFrom (d : Decl) (path text : String) : Prop where
  file : d.file = (parse text).file path text
  item : .function d.item ∈ (parse text).items
  name : d.item.name = some d.symbol

section

variable {path text earlier : String} {span : Span} {d kept : Decl}

theorem Location.pointsAt_within (path : String) (h : span.LiesIn (bytesOf text)) :
    (within ((parse text).file path text) span).PointsAt path text span := ⟨rfl, h⟩

/-- A diagnostic without labels is in a text if its location is. -/
theorem Diagnostic.pointsInto_of_location {p : Diagnostic} (h : p.location.PointsAt path text span)
    (hlabels : p.labels = []) : p.PointsInto path text := by
  refine ⟨⟨span, h⟩, fun l hl => ?_⟩
  rw [hlabels] at hl
  exact absurd hl List.not_mem_nil

theorem Diagnostic.pointsInto_ofSyntaxError {e : SyntaxError} (h : e.LiesIn (bytesOf text)) :
    (ofSyntaxError ((parse text).file path text) e).PointsInto path text := by
  refine ⟨⟨e.span, Location.pointsAt_within _ h.span⟩, fun l hl => ?_⟩
  obtain ⟨span, hspan, rfl⟩ := List.mem_map.1 hl
  exact ⟨span, Location.pointsAt_within path (h.openedAt span (Option.mem_toList.1 hspan))⟩

namespace Decl.IsFrom

theorem liesIn (h : d.IsFrom path text) : d.item.LiesIn (bytesOf text) :=
  (parse_liesIn text).2 _ h.item

/-- Where a declaration says its name is, there it is. -/
theorem pointsAt_name (h : d.IsFrom path text) :
    (Location.within d.file d.item.nameSpan).PointsAt path text d.item.nameSpan ∧
      slice (bytesOf text) d.item.nameSpan = bytesOf d.symbol := by
  rw [h.file]
  exact ⟨Location.pointsAt_within _ h.liesIn.nameSpan, h.liesIn.named _ h.name⟩

theorem text_eq (h : d.IsFrom path text) : d.file.text = text := by
  rw [h.file]
  rfl

/-- A problem of two declarations of one name points at both names, each in its own text. -/
theorem pointsAtNames {p : Diagnostic} {message : String} (hd : d.IsFrom path text)
    (hkept : kept.IsFrom path earlier) (hsymbol : kept.symbol = d.symbol)
    (hlocation : p.location = .within d.file d.item.nameSpan)
    (hlabels : p.labels = [⟨.within kept.file kept.item.nameSpan, message⟩]) :
    p.PointsAtNames path text kept := by
  obtain ⟨hplace, hname⟩ := hd.pointsAt_name
  rw [← hsymbol] at hname
  constructor
  · rw [hlocation]
    exact ⟨_, hplace, hname⟩
  · rw [hkept.text_eq]
    exact ⟨_, hlabels, hkept.pointsAt_name⟩

end Decl.IsFrom

/-! ## What is wrong with a signature -/

theorem TypeExpr.mem_allProblems {file : SourceFile} {es : List TypeExpr} {p : Diagnostic} :
    p ∈ allProblems file es ↔ ∃ e ∈ es, p ∈ e.problems file := by
  induction es with
  | nil => simp [allProblems]
  | cons e es ih => simp [allProblems, ih]

/-- The problems of a written type are at names in it. -/
theorem TypeExpr.LiesIn.pointsInto {e : TypeExpr} (h : e.LiesIn (bytesOf text)) {p : Diagnostic}
    (hp : p ∈ e.problems ((parse text).file path text)) :
    p.PointsInto path text ∧ (p.code = .E3001 ∨ p.code = .E3002) := by
  induction h with
  | @named name span hspan =>
    have hplace := Location.pointsAt_within path hspan
    unfold problems at hp
    split at hp
    · cases hp
    · rw [List.mem_singleton.1 hp]
      exact ⟨Diagnostic.pointsInto_of_location hplace rfl, .inl rfl⟩
    · rw [List.mem_singleton.1 hp]
      exact ⟨Diagnostic.pointsInto_of_location hplace rfl, .inr rfl⟩
  | pointer _ _ ih =>
    rw [problems] at hp
    exact ih hp
  | array _ _ ih =>
    rw [problems] at hp
    exact ih hp
  | function _ _ _ ihparams ihresult =>
    rw [problems, List.mem_append, mem_allProblems] at hp
    rcases hp with ⟨e, he, hp⟩ | hp
    · exact ihparams e he hp
    · exact ihresult hp

/-- The problems of a signature are at names in it. -/
theorem FunctionItem.LiesIn.pointsInto {f : FunctionItem} (h : f.LiesIn (bytesOf text))
    {p : Diagnostic} (hp : p ∈ f.problems ((parse text).file path text)) :
    p.PointsInto path text ∧ (p.code = .E3001 ∨ p.code = .E3002) := by
  rw [problems, List.mem_append, TypeExpr.mem_allProblems] at hp
  rcases hp with ⟨e, he, hp⟩ | hp
  · obtain ⟨q, hq, rfl⟩ := List.mem_map.1 he
    exact (h.params q hq).pointsInto hp
  · exact h.result.pointsInto hp

/-- What resolving a declaration reports is wrong with its signature, or is why the analyzer rejects
its body. -/
theorem Decl.mem_problems_finding {analyzer : Analyzer} {p : Diagnostic}
    (h : p ∈ (d.finding analyzer).problems) :
    p ∈ d.item.problems d.file ∨ ∃ body r code message, d.item.body = some body ∧
      analyzer r = .rejected code message ∧ p = Workshop.rejection d.file body code message := by
  unfold finding at h
  cases hmeaning : d.item.meaning? with
  | none =>
    rw [hmeaning] at h
    exact .inl h
  | some signature =>
    rw [hmeaning] at h
    dsimp only at h
    cases hbody : d.item.body with
    | none =>
      rw [hbody] at h
      cases h
    | some body =>
      rw [hbody] at h
      dsimp only at h
      cases hverdict : analyzer (d.request signature.1 signature.2 body) with
      | crashed message =>
        rw [hverdict] at h
        cases h
      | accepted =>
        rw [hverdict] at h
        cases h
      | rejected code message =>
        rw [hverdict] at h
        exact .inr ⟨body, _, code, message, rfl, hverdict, List.mem_singleton.1 h⟩

/-! ## The problems of a cycle -/

theorem SyntaxCause.code_ne (c : SyntaxCause) : c.code ≠ .E2002 ∧ c.code ≠ .E2003 := by
  cases c with
  | _ => exact ⟨nofun, nofun⟩

/-- What a session keeps was made of texts it has read. -/
structure Session.Dated (s : Session) (path : String) (texts : List String) : Prop where
  live : ∀ d ∈ s.table.decls, ∃ text ∈ texts, d.IsFrom path text
  held : ∀ symbol d, s.exports.find? symbol = some d → ∃ text ∈ texts, d.IsFrom path text

/-- Where a problem points that a session `s` reports after it has read `text`, having read
`earlier` before. Either all is in that text; then it is not about a name that is taken, unless
the analyzer says so. Or it is about a name that is taken, or a symbol that is in use: by another
declaration of the text, or by one that was kept, of a text read earlier. -/
inductive Diagnostic.Aims (s : Session) (earlier : List String) (path text : String)
    (p : Diagnostic) : Prop where
  | here : p.PointsInto path text → (p.code ≠ .E2002 ∧ p.code ≠ .E2003) ∨
      (∃ r, s.analyzer r = .rejected p.code p.message) → Aims s earlier path text p
  | redefines {kept : Decl} : p.code = .E2002 → p.PointsAtNames path text kept →
      kept.file.text = text ∨ (kept.file.text ∈ earlier ∧ kept ∈ s.table.decls) →
      Aims s earlier path text p
  | collides {kept : Decl} : p.code = .E2003 → p.PointsAtNames path text kept →
      kept.file.text = text ∨ (kept.file.text ∈ earlier ∧ s.exports.Holds kept) →
      Aims s earlier path text p

variable {names : Interner} {next : DeclId} {settings : Settings} {stale : List Decl}
  {s : Session} {texts : List String}

/-- What is made of a revision is of its text. -/
theorem Change.isFrom_of_mem_made (h : d ∈ made names ((parse text).file path text) next
    (ChangePlan.ofItems settings ((parse text).file path text) stale (parse text).items).changes) :
    d.IsFrom path text := by
  obtain ⟨hfile, hadded⟩ := mem_made h
  obtain ⟨hname, hitem⟩ := ChangePlan.added_of_mem hadded
  exact ⟨hfile, hitem, hname⟩

/-- A problem of a revision points where it should. -/
theorem Change.Problem.aims {p : Diagnostic} (hs : s.Dated path texts)
    (h : Problem s.analyzer ((parse text).file path text) (· ∈ s.table.decls) s.exports.Holds
      (ChangePlan.ofItems settings ((parse text).file path text) stale (parse text).items).changes
      (made names ((parse text).file path text) next (ChangePlan.ofItems settings
        ((parse text).file path text) stale (parse text).items).changes) p) :
    p.Aims s texts path text := by
  cases h with
  | nameless hf =>
    obtain ⟨-, hitem⟩ := ChangePlan.isOf_of_mem hf
    have hplace := Location.pointsAt_within path ((parse_liesIn text).2 _ hitem).nameSpan
    exact .here (Diagnostic.pointsInto_of_location hplace rfl) (.inl ⟨nofun, nofun⟩)
  | rejected hblock hrejected =>
    have hitem := ChangePlan.isOf_of_mem hblock
    have hplace := Location.pointsAt_within path ((parse_liesIn text).2 _ hitem)
    exact .here (Diagnostic.pointsInto_of_location hplace rfl) (.inr ⟨_, hrejected⟩)
  | found hd hp =>
    have hfrom := isFrom_of_mem_made hd
    rcases Decl.mem_problems_finding hp with hp | ⟨body, r, code, message, hbody, hrejected, rfl⟩
    · rw [hfrom.file] at hp
      obtain ⟨hplace, hcode⟩ := hfrom.liesIn.pointsInto hp
      refine .here hplace (.inl ?_)
      rcases hcode with hcode | hcode
      · rw [hcode]
        exact ⟨nofun, nofun⟩
      · rw [hcode]
        exact ⟨nofun, nofun⟩
    · have hplace := Location.pointsAt_within path (hfrom.liesIn.body body hbody)
      rw [← hfrom.file] at hplace
      exact .here (Diagnostic.pointsInto_of_location hplace rfl) (.inr ⟨r, hrejected⟩)
  | redefined hd hsymbol hkept =>
    have hfrom := isFrom_of_mem_made hd
    rcases hkept with hlive | hnew
    · obtain ⟨earlier, hearlier, hkept⟩ := hs.live _ hlive
      refine .redefines rfl (hfrom.pointsAtNames hkept hsymbol rfl rfl) (.inr ⟨?_, hlive⟩)
      rwa [hkept.text_eq]
    · have hkept := isFrom_of_mem_made hnew
      exact .redefines rfl (hfrom.pointsAtNames hkept hsymbol rfl rfl) (.inl hkept.text_eq)
  | collides hd hsymbol hkept =>
    have hfrom := isFrom_of_mem_made hd
    rcases hkept with hheld | hnew
    · obtain ⟨earlier, hearlier, hkept⟩ := hs.held _ _ hheld
      refine .collides rfl (hfrom.pointsAtNames hkept hsymbol rfl rfl) (.inr ⟨?_, hheld⟩)
      rwa [hkept.text_eq]
    · have hkept := isFrom_of_mem_made hnew
      exact .collides rfl (hfrom.pointsAtNames hkept hsymbol rfl rfl) (.inl hkept.text_eq)

/-- Nothing between two cycles moves where problems point. -/
theorem Diagnostic.Aims.congr {s' : Session} {p : Diagnostic} (h : p.Aims s texts path text)
    (hsame : s.products = s'.products) (hanalyzer : s.analyzer = s'.analyzer) :
    p.Aims s' texts path text := by
  have htable : s.table = s'.table := congrArg (fun s => s.table) hsame
  have hexports : s.exports = s'.exports := congrArg (fun s => s.exports) hsame
  cases h with
  | here hplace hcode =>
    rw [hanalyzer] at hcode
    exact .here hplace hcode
  | redefines hcode hnames hkept =>
    rw [htable] at hkept
    exact .redefines hcode hnames hkept
  | collides hcode hnames hkept =>
    rw [hexports] at hkept
    exact .collides hcode hnames hkept

theorem Session.Dated.congr {s' : Session} (h : s.Dated path texts)
    (hsame : s.products = s'.products) : s'.Dated path texts := by
  have htable : s.table = s'.table := congrArg (fun s => s.table) hsame
  have hexports : s.exports = s'.exports := congrArg (fun s => s.exports) hsame
  obtain ⟨hlive, hheld⟩ := h
  rw [htable] at hlive
  rw [hexports] at hheld
  exact ⟨hlive, hheld⟩

end

/-- The function that a plan adds under a name, if it does nothing else. -/
def ChangePlan.onlyAdds? (symbol : String) : ChangePlan → Option FunctionItem
  | ⟨[.add name f], none⟩ => if name = symbol then some f else none
  | _ => none

theorem ChangePlan.eq_of_onlyAdds? {plan : ChangePlan} {symbol : String} {f : FunctionItem}
    (h : plan.onlyAdds? symbol = some f) : plan = { changes := [.add symbol f] } := by
  unfold onlyAdds? at h
  split at h
  · split at h
    · rename_i hname
      rw [Option.some.inj h, hname]
    · cases h
  · cases h

namespace Workshop

variable {w : Workshop} {root : String} {names : Interner} {file : SourceFile}
  {changes : List Change} {problems reported : List Diagnostic} {texts : List String}

/-! ## Reading a revision -/

/-- The text of the root file, if it can be read. -/
def textIn (limit : Nat) (root : String) (files : FileTree) : Option String :=
  match readSource files limit root with
  | .ok (.ok text) => some text
  | _ => none

/-- A file that is no text or too big is reported at its start. -/
theorem location_of_refused {files : FileTree} {limit : Nat} {path : String} {problem : Diagnostic}
    (h : readSource files limit path = .ok (.error problem)) :
    problem.location = .startOf path ∧ problem.labels = [] := by
  unfold readSource at h
  split at h
  · cases h
  · split at h
    · cases h
      exact ⟨rfl, rfl⟩
    · cases h
  · split at h
    · cases h
      exact ⟨rfl, rfl⟩
    · split at h
      · cases h
      · cases h
        exact ⟨rfl, rfl⟩

/-- What a rebuild carries out and notes, by what it reads: nothing of a file that cannot be read,
the problem of one that is no source file, and else what its plan says. -/
inductive Notes (w : Workshop) (root : String) (names : Interner) :
    SourceFile → List Change → List Diagnostic → Prop where
  | unread {file : SourceFile} {e : BuildError} :
      readSource w.files w.session.settings.maxSourceSize root = .error e →
      (w.rebuild root).outcome = .failed e → Notes w root names file [] []
  | refused {file : SourceFile} {problem : Diagnostic} :
      readSource w.files w.session.settings.maxSourceSize root = .ok (.error problem) →
      Notes w root names file [] [problem]
  | invalid {text : String} {e : SyntaxError} :
      readSource w.files w.session.settings.maxSourceSize root = .ok (.ok text) →
      (parse text).error = some e →
      Notes w root names ((parse text).file root text) []
        [.ofSyntaxError ((parse text).file root text) e]
  | taken {text : String} :
      readSource w.files w.session.settings.maxSourceSize root = .ok (.ok text) →
      Notes w root names ((parse text).file root text)
        (planFor w ((parse text).file root text)).changes
        (Change.noted names ((parse text).file root text) w.session.table w.session.nextDecl
          (planFor w ((parse text).file root text)).changes)

theorem exists_notes (hlive : w.session.isCancelled = false) (root : String) :
    ∃ names file changes problems,
      Rebuilt w.session names file changes problems (w.rebuild root) ∧
      Notes w root names file changes problems := by
  cases hread : readSource w.files w.session.settings.maxSourceSize root with
  | error e =>
    have hfailed := congrArg (·.outcome) (rebuild_eq_failed hlive hread)
    exact ⟨_, _, _, _, rebuilt_unread hlive ((parse "").file root "") hread, .unread hread hfailed⟩
  | ok found =>
    cases found with
    | error problem =>
      have hrebuilt := rebuilt_refused hlive ((parse "").file root "") hread
      exact ⟨_, _, _, _, hrebuilt, .refused hread⟩
    | ok text =>
      cases hvalid : (parse text).error with
      | some e => exact ⟨_, _, _, _, rebuilt_invalid hlive hread hvalid, .invalid hread hvalid⟩
      | none => exact ⟨_, _, _, _, rebuilt_taken hlive hread hvalid, .taken hread⟩

/-- What a rebuild makes is of the text it has read. -/
theorem Notes.isFrom (h : Notes w root names file changes problems) {next : DeclId} {d : Decl}
    (hd : d ∈ Change.made names file next changes) :
    ∃ text, textIn w.session.settings.maxSourceSize root w.files = some text ∧
      d.IsFrom root text := by
  cases h with
  | unread hread hfailed => exact absurd hd List.not_mem_nil
  | refused hread => exact absurd hd List.not_mem_nil
  | invalid hread hinvalid => exact absurd hd List.not_mem_nil
  | @taken text hread =>
    refine ⟨text, ?_, Change.isFrom_of_mem_made hd⟩
    rw [textIn, hread]

/-! ## One cycle -/

/-- A cycle that fails reports that its file is no source file, or problems that point into the
text it has read or to what was kept of earlier texts. -/
theorem aims_of_fail (hs : w.session.Settled) (hlive : w.session.isCancelled = false)
    (hlate : w.session.exports.Before w.session.exports.reserved)
    (hdated : w.session.Dated root texts)
    (hfail : (w.runCycle [root]).2.outcome = .fail reported) :
    (∃ problem, readSource w.files w.session.settings.maxSourceSize root = .ok (.error problem) ∧
        reported = [problem]) ∨
      ∃ text, readSource w.files w.session.settings.maxSourceSize root = .ok (.ok text) ∧
        ∀ p ∈ reported, p.Aims w.session texts root text := by
  obtain ⟨names, file, changes, problems, hrebuilt, hnotes⟩ := exists_notes hlive root
  obtain ⟨hdone, hreported⟩ := problems_of_fail hs hrebuilt hfail
  have hentries := hrebuilt.entries
  cases hnotes with
  | unread hread hfailed =>
    rw [hfailed] at hdone
    cases hdone
  | @refused _ problem hread => exact .inl ⟨problem, hread, hreported⟩
  | @invalid text e hread hinvalid =>
    refine .inr ⟨text, hread, fun p hp => ?_⟩
    obtain rfl : p = .ofSyntaxError ((parse text).file root text) e := by
      rw [hreported] at hp
      exact List.mem_singleton.1 hp
    refine .here (Diagnostic.pointsInto_ofSyntaxError ?_) (.inl e.cause.code_ne)
    exact (parse_liesIn text).1 e hinvalid
  | @taken text hread =>
    refine .inr ⟨text, hread, fun p hp => ?_⟩
    rw [hreported, List.mem_append] at hp
    rcases hp with hnoted | hreports
    · exact (Change.problem_of_mem_noted hnoted).aims hdated
    · have hlate' : (w.rebuild root).state.session.exports.Before
          w.session.exports.reserved := by
        unfold ExportTable.Before
        rw [hentries]
        exact hlate
      have hproblem : Change.Problem _ _ (· ∈ w.session.table.decls) _ _ _ p :=
        Change.problem_of_mem_reportsOf hlate' hreports
      have hholds : (w.rebuild root).state.session.exports.Holds = w.session.exports.Holds := by
        unfold ExportTable.Holds ExportTable.find? ExportTable.entry?
        rw [hentries]
      rw [hholds] at hproblem
      exact hproblem.aims hdated

/-- A cycle keeps what was kept, and what it adds is of the text it has read. -/
theorem dated_runCycle (hs : w.session.Settled) (hlive : w.session.isCancelled = false)
    (hlate : w.session.exports.Before w.session.exports.reserved)
    (hdated : w.session.Dated root texts) :
    (w.runCycle [root]).1.session.Dated root
      (texts ++ (textIn w.session.settings.maxSourceSize root w.files).toList) := by
  obtain ⟨names, file, changes, problems, hrebuilt, hnotes⟩ := exists_notes hlive root
  have hcycled := cycled_of_rebuilt hs hrebuilt
  have hold {d : Decl} (h : ∃ text ∈ texts, d.IsFrom root text) :
      ∃ text ∈ texts ++ (textIn w.session.settings.maxSourceSize root w.files).toList,
        d.IsFrom root text := by
    obtain ⟨text, htext, hfrom⟩ := h
    exact ⟨text, List.mem_append_left _ htext, hfrom⟩
  have hnew {d : Decl} (hd : d ∈ Change.made names file w.session.nextDecl changes) :
      ∃ text ∈ texts ++ (textIn w.session.settings.maxSourceSize root w.files).toList,
        d.IsFrom root text := by
    obtain ⟨text, htext, hfrom⟩ := hnotes.isFrom hd
    exact ⟨text, List.mem_append_right _ (Option.mem_toList.2 htext), hfrom⟩
  constructor
  · intro d hd
    rw [hcycled.table] at hd
    rcases DeclTable.mem_foldl_enter hd with hd | hd
    · exact hold (hdated.live d hd)
    · exact hnew hd
  · intro symbol d hd
    rw [(hcycled.claimed hlate).holds, Option.or_eq_some_iff] at hd
    rcases hd with hd | ⟨-, hd⟩
    · exact hold (hdated.held symbol d hd)
    · exact hnew (mem_exported.1 (List.mem_of_find?_eq_some hd)).1

/-! ## From cycle to cycle -/

/-- What a session keeps after any contents was made of their texts. -/
theorem dated_reviseAll {t : Toolchain} {setup : SessionSetup}
    (hroot : setup.settings.root = some root)
    (hcreate : t.createSession setup = (.ok w.session, w.toolchain)) (contents : List FileTree) :
    (w.reviseAll root contents).session.Dated root
      (contents.filterMap (textIn setup.settings.maxSourceSize root)) := by
  have hawaits := createSession_awaits hcreate
  induction contents using List.reverseRecOn with
  | nil =>
    obtain ⟨id, machine, context, hsession⟩ := createSession_eq_ok hcreate
    change w.session.Dated root []
    rw [hsession]
    exact ⟨fun d hd => absurd hd List.not_mem_nil, fun symbol d hd => by cases hd⟩
  | append_singleton contents files ih =>
    have hstanding := standing_reviseAll hroot hcreate contents
    obtain ⟨hs, -, hlive, hsettings, -, hfiles, hrun, -⟩ :=
      begun_of_awaits (reviseAll_awaits hawaits hroot contents) hroot files
    have hbegun := (begun_products (w.reviseAll root contents) root files).symm
    rw [reviseAll_concat, hrun, List.filterMap_append]
    have hcycle := dated_runCycle hs hlive (hstanding.congr hbegun).late (ih.congr hbegun)
    rw [hsettings, hfiles] at hcycle
    convert hcycle using 2
    cases htext : textIn setup.settings.maxSourceSize root files with
    | none => simp [htext]
    | some text => simp [htext]

/-- A session is shown any contents of its files and then some more. If the last cycle fails, its
file is no text or too big, which is reported at the start of the file; or all that it reports
points into the text that it has read, with one exception: the label that shows who has kept a
name, or holds a symbol, since an earlier cycle points into the text of that cycle. -/
theorem problems_point_into_what_was_read {t : Toolchain} {setup : SessionSetup}
    (hroot : setup.settings.root = some root)
    (hcreate : t.createSession setup = (.ok w.session, w.toolchain)) (contents : List FileTree)
    (files : FileTree) :
    ∃ w' event, (w.reviseAll root contents).revise root files = (w', some event) ∧
      ∀ reported, event.outcome = .fail reported →
        (∃ problem, readSource files setup.settings.maxSourceSize root = .ok (.error problem) ∧
          reported = [problem] ∧ problem.location = .startOf root ∧ problem.labels = []) ∨
        ∃ text, readSource files setup.settings.maxSourceSize root = .ok (.ok text) ∧
          ∀ p ∈ reported, p.Aims (w.reviseAll root contents).session
            (contents.filterMap (textIn setup.settings.maxSourceSize root)) root text := by
  have hawaits := reviseAll_awaits (createSession_awaits hcreate) hroot contents
  have hstanding := standing_reviseAll hroot hcreate contents
  have hdated := dated_reviseAll hroot hcreate contents
  obtain ⟨hs, -, hlive, hsettings, hanalyzer, hfiles, hrun, -⟩ :=
    begun_of_awaits hawaits hroot files
  have hbegun := (begun_products (w.reviseAll root contents) root files).symm
  refine ⟨_, _, hrun, fun reported hfail => ?_⟩
  have haims := aims_of_fail hs hlive (hstanding.congr hbegun).late (hdated.congr hbegun) hfail
  rw [hsettings, hfiles] at haims
  rcases haims with ⟨problem, hread, hreported⟩ | ⟨text, hread, hall⟩
  · exact .inl ⟨problem, hread, hreported, location_of_refused hread⟩
  · refine .inr ⟨text, hread, fun p hp => ?_⟩
    exact (hall p hp).congr hbegun.symm (hanalyzer.trans hawaits.analyzer.symm)

/-- A revision of which one function is taken, which is not exported and whose name another
declaration has kept. The cycle reports this and nothing else. -/
theorem runCycle_redefined {text symbol : String} {f : FunctionItem} {kept : Decl}
    (hs : w.session.Settled) (hlive : w.session.isCancelled = false)
    (hread : readSource w.files w.session.settings.maxSourceSize root = .ok (.ok text))
    (hvalid : (parse text).error = none)
    (hplan : planFor w ((parse text).file root text) = { changes := [.add symbol f] })
    (hprivate : f.isExport = false) (hkept : w.session.table.find? symbol = some kept)
    (hlink : ∀ cycle, ((w.compile [root]).1.link cycle).1 = .ok ()) :
    ∃ d : Decl, d.item = f ∧ d.file = (parse text).file root text ∧
      (w.runCycle [root]).2.outcome = .fail [redefinitionProblem d kept] := by
  let d : Decl := { id := w.session.nextDecl, name := (w.namesAfter text).nameOf symbol, symbol,
                    item := f, file := (parse text).file root text }
  have hexport : d.isExport = false := hprivate
  have hdone : (w.rebuild root).outcome = .done := by
    rw [rebuild_eq_takeOver hlive hread hvalid]
    exact takeOver_outcome.2 (congrArg ChangePlan.blocker hplan)
  have hrebuilt := rebuilt_taken hlive hread hvalid
  rw [hplan] at hrebuilt
  -- the function is not exported, so nothing is to be done about it
  have htasks : (w.rebuild root).spawned = [] := by
    rw [hrebuilt.spawned]
    change (if d.isExport = true then _ else []) ++ [] = []
    rw [hexport]
    rfl
  have hnone : exported [d] = [] := by
    unfold exported
    rw [List.filter_cons, hexport]
    rfl
  have herrors : (runGroup groupName runTask BuildTask.depth [.rebuild root] w).errors = [] := by
    rw [(compiled_of_rebuilt hs hrebuilt).errors, htasks]
    refine ⟨hdone, fun t ht => absurd ht List.not_mem_nil, fun e he => ?_⟩
    change e ∈ exported [d] at he
    rw [hnone] at he
    exact absurd he List.not_mem_nil
  have hnoted : Change.noted (w.namesAfter text) ((parse text).file root text) w.session.table
      w.session.nextDecl [.add symbol f] = [redefinitionProblem d kept] := by
    change (w.session.table.find? symbol).toList.map (redefinitionProblem d) ++ [] = _
    rw [hkept]
    rfl
  refine ⟨d, rfl, rfl, ?_⟩
  rw [runCycle_of_done hs hrebuilt herrors hlink, htasks, hnoted]
  rfl

/-- The function of the lonely text moved down, with another one of its name after it. -/
def movedText : String := "\n\nfn f() void {}\nfn f() void {}\n"

/-- The function is kept as it was in the lonely text, and the other one is added. -/
theorem nextPlan_movedText : ∃ f kept,
    nextPlan lonelyText movedText = { changes := [.add "f" f] } ∧
      f.isExport = false ∧ f.nameSpan = ⟨20, 21⟩ ∧
      (tableA lonelyText).find? "f" = some kept ∧ kept.item.nameSpan = ⟨3, 4⟩ ∧
      kept.file.path = "a" ∧ kept.file.text = lonelyText := by
  have hplan : ((nextPlan lonelyText movedText).onlyAdds? "f").any (fun f =>
      !f.isExport && f.nameSpan == ⟨20, 21⟩) = true := by decide +kernel
  have hkept : ((tableA lonelyText).find? "f").any (fun kept => kept.item.nameSpan == ⟨3, 4⟩ &&
      (kept.file.path == "a" && kept.file.text == lonelyText)) = true := by decide +kernel
  rw [Option.any_eq_true] at hplan hkept
  obtain ⟨f, hf, hplace⟩ := hplan
  obtain ⟨kept, hfind, hkept⟩ := hkept
  simp only [Bool.and_eq_true, Bool.not_eq_true', beq_iff_eq] at hplace hkept
  exact ⟨f, kept, ChangePlan.eq_of_onlyAdds? hf, hplace.1, hplace.2, hfind, hkept⟩

/-- The cycle over the moved text reports the second function. What shows the first one is where
that was in the lonely text. -/
theorem fail_of_movedText : ∃ w event p,
    ((sessionA lonelyText).reviseAll "a" [fileA lonelyText]).revise "a" (fileA movedText) =
        (w, some event) ∧ event.outcome = .fail [p] ∧ p.code = .E2002 ∧
      p.location = .source "a" ⟨20, 21⟩ ⟨4, 4⟩ ∧
      p.labels = [⟨.source "a" ⟨3, 4⟩ ⟨1, 4⟩, "previous definition here"⟩] := by
  have hsize : (bytesOf lonelyText).length ≤ 4294967295 := by decide +kernel
  have hvalid : (parse lonelyText).error = none := by decide +kernel
  obtain ⟨f, kept, hplan, hprivate, hspan, hkept, hkeptSpan, hpath, htext⟩ := nextPlan_movedText
  have htable : (revisedA lonelyText movedText).resumed.session.table = tableA lonelyText :=
    table_resumedA hsize hvalid
  have hresumed : planFor (revisedA lonelyText movedText).resumed
      ((parse movedText).file "a" movedText) = nextPlan lonelyText movedText :=
    planFor_resumedA hsize hvalid
  rw [← htable] at hkept
  obtain ⟨d, hitem, hfile, houtcome⟩ := runCycle_redefined (settled_resumedA lonelyText movedText)
    rfl (readSource_resumedA (by decide +kernel)) (by decide +kernel) (hresumed.trans hplan)
    hprivate hkept fun cycle =>
      link_dryRun ((compile_plan _ ["a"]).trans (plan_resumedA lonelyText movedText)) cycle
  refine ⟨_, _, _, (revise_sessionA lonelyText movedText).trans (react_revisedA _ _), houtcome, rfl,
    ?_, ?_⟩
  · have hline : positionAt (bytesOf movedText) 20 = ⟨4, 4⟩ := by decide +kernel
    unfold redefinitionProblem Location.within
    dsimp only
    rw [hitem, hfile, hspan, ← hline]
    rfl
  · have hline : positionAt (bytesOf lonelyText) 3 = ⟨1, 4⟩ := by decide +kernel
    unfold redefinitionProblem Location.within
    dsimp only
    rw [hkeptSpan, hpath, htext, ← hline]

theorem movedText_is_aimed_at : ∃ w event p,
    ((sessionA lonelyText).reviseAll "a" [fileA lonelyText]).revise "a" (fileA movedText) =
        (w, some event) ∧ event.outcome = .fail [p] ∧
      p.Aims ((sessionA lonelyText).reviseAll "a" [fileA lonelyText]).session
        ([fileA lonelyText].filterMap (textIn 4294967295 "a")) "a" movedText := by
  obtain ⟨w, event, p, hrun, hfail, -⟩ := fail_of_movedText
  obtain ⟨w', event', hrun', hall⟩ := problems_point_into_what_was_read rfl
    (createSession_sessionA lonelyText) [fileA lonelyText] (fileA movedText)
  obtain ⟨rfl, hevent⟩ := Prod.mk.inj (hrun.symm.trans hrun')
  obtain rfl := Option.some.inj hevent
  refine ⟨w, event, p, hrun, hfail, ?_⟩
  have hread : readSource (fileA movedText) 4294967295 "a" = .ok (.ok movedText) :=
    readSource_fileA movedText (by decide +kernel)
  rcases hall [p] hfail with ⟨problem, hrefused, -⟩ | ⟨text, htext, haims⟩
  · cases hread.symm.trans hrefused
  · obtain rfl : movedText = text := Except.ok.inj (Except.ok.inj (hread.symm.trans htext))
    exact haims p (List.mem_singleton_self p)

/-- The label of the second function shows the first one, but not where it is in the text that the
cycle has read: there is no name there, nor are the line and the column those of the place. -/
theorem moved_function_is_shown_where_it_was : ∃ w event p label span position,
    ((sessionA lonelyText).reviseAll "a" [fileA lonelyText]).revise "a" (fileA movedText) =
        (w, some event) ∧ event.outcome = .fail [p] ∧ p.code = .E2002 ∧ label ∈ p.labels ∧
      label.location = .source "a" span position ∧
      positionAt (bytesOf movedText) span.start ≠ position ∧
      slice (bytesOf movedText) span ≠ bytesOf "f" := by
  obtain ⟨w, event, p, hrun, hfail, hcode, -, hlabels⟩ := fail_of_movedText
  refine ⟨w, event, p, ⟨.source "a" ⟨3, 4⟩ ⟨1, 4⟩, "previous definition here"⟩, ⟨3, 4⟩, ⟨1, 4⟩,
    hrun, hfail, hcode, ?_, rfl, ?_, ?_⟩
  · rw [hlabels]
    exact List.mem_singleton_self _
  · decide +kernel
  · decide +kernel

end Workshop

end IncrementalBuild
