import IncrementalBuild.Diagnostic.Report
import IncrementalBuild.Proofs.Source.Bytes
import IncrementalBuild.Proofs.Source.Numbers
import IncrementalBuild.Proofs.Source.Positions

/-!
# Positions counted by bytes and by characters

A location counts the lines and columns of its text in bytes, where a newline ends a line. A
report takes the same offsets for numbers of characters, and has more characters that end a
line. Both are one count (`Position.counting`) with two ways to say where a line ends, and the
header of a report shows the location of its diagnostic where the two agree up to it.

## Main results

* `Report.lineAt?_linesOf`: a report counts lines like a location, with other ends of lines.
* `Report.showsPlace_location_iff`: what the header of a report shows.
* `Report.PlainText.breaksAt_eq`, `Report.PlainText.of_breaksAt_eq`: the texts in which the two
  agree everywhere.
-/

set_option autoImplicit false

namespace IncrementalBuild

/-! ## Where lines end -/

namespace Position

variable {ends others : Nat → Bool} {n : Nat}

theorem counting_congr (h : ∀ i < n, ends i = others i) : counting ends n = counting others n := by
  induction n with
  | zero => rfl
  | succ n ih =>
    rw [counting, counting, h n n.lt_succ_self, ih fun i hi => h i (hi.trans n.lt_succ_self)]

/-- One position after another tells where the lines end. -/
theorem ends_eq_of_counting (h : ∀ m ≤ n, counting ends m = counting others m) :
    ∀ i < n, ends i = others i := by
  intro i hi
  have hbefore := h i hi.le
  have hafter := congrArg line (h (i + 1) hi)
  simp only [counting, hbefore] at hafter
  cases hends : ends i <;> cases hothers : others i <;> simp_all

end Position

namespace Report

/-! ## The lines of a report -/

/-- Whether a line of a report ends with a character and another line follows: the
character is a terminator, but not the carriage return of a pair, and not the last one. -/
def breaksAt (cs : List Char) (i : Nat) : Bool :=
  cs[i]?.any endsLine && decide (i + 1 < cs.length) &&
    !(cs[i]? == some '\r' && cs[i + 1]? == some '\n')

theorem breaksAt_cons_succ (c : Char) (cs : List Char) (i : Nat) :
    breaksAt (c :: cs) (i + 1) = breaksAt cs i := by
  simp [breaksAt]

/-- The offsets where a line starts because of the characters before it, where the first
character has offset `o`. -/
def startsAfter (o : Nat) (cs : List Char) : List Nat :=
  ((List.range cs.length).filter (breaksAt cs)).map (o + 1 + ·)

theorem startsAfter_cons (o : Nat) (c : Char) (cs : List Char) : startsAfter o (c :: cs) =
    (if breaksAt (c :: cs) 0 then [o + 1] else []) ++ startsAfter (o + 1) cs := by
  have hmap : ((List.range cs.length).map (· + 1)).filter (breaksAt (c :: cs)) =
      ((List.range cs.length).filter (breaksAt cs)).map (· + 1) := by
    rw [List.filter_map]
    exact congrArg (List.map _) (List.filter_congr fun i _ => breaksAt_cons_succ c cs i)
  have hshift : (o + 1 + ·) ∘ (· + 1) = (o + 1 + 1 + ·) := by
    funext i
    exact Nat.add_right_comm (o + 1) i 1
  rw [startsAfter, startsAfter, List.length_cons, List.range_succ_eq_map, List.filter_cons,
    ← hshift, ← List.map_map, ← hmap]
  split <;> rfl

theorem flatten_splitLines (current cs : List Char) :
    (splitLines current cs).flatten = current.reverse ++ cs := by
  fun_induction splitLines current cs <;> simp_all

theorem map_chars_place (o : Nat) (pieces : List (List Char)) :
    (place o pieces).map (·.chars) = pieces := by
  induction pieces generalizing o with
  | nil => rfl
  | cons piece pieces ih => simp [place, ih]

theorem charCount_linesOf (text : String) : charCount (linesOf text) = text.toList.length := by
  rw [charCount, List.flatMap_def, linesOf, map_chars_place, flatten_splitLines, List.reverse_nil,
    List.nil_append]

/-- A line starts at the offset the lines are put at, and after each character that ends
one. -/
theorem map_start_place (o : Nat) (current cs : List Char) (h : current ≠ [] ∨ cs ≠ []) :
    (place o (splitLines current cs)).map (·.start) =
      o :: startsAfter (o + current.length) cs := by
  fun_induction splitLines current cs generalizing o with
  | case1 current hempty => simp_all
  | case2 current hempty => rfl
  | case3 current rest ih =>
    rw [startsAfter_cons, startsAfter_cons]
    have hcr : breaksAt ('\r' :: '\n' :: rest) 0 = false := by simp [breaksAt]
    have hlength : ('\n' :: '\r' :: current).reverse.length = current.length + 2 := by simp
    cases rest with
    | nil => rfl
    | cons d rest =>
      have hlf : breaksAt ('\n' :: d :: rest) 0 = true := by simp [breaksAt, endsLine]
      rw [place, List.map_cons, ih _ (.inr (List.cons_ne_nil d rest)), hcr, hlf, hlength]
      rfl
  | case4 current c rest hpair hends ih =>
    rw [startsAfter_cons]
    have hlength : (c :: current).reverse.length = current.length + 1 := by simp
    cases rest with
    | nil => simp [breaksAt, startsAfter, place, splitLines]
    | cons d rest =>
      have hc : breaksAt (c :: d :: rest) 0 = true := by
        have hnopair : c = '\r' → d ≠ '\n' := fun hc hd => hpair rest hc (by rw [hd])
        simpa [breaksAt, hends, ← not_and_or] using hnopair
      rw [place, List.map_cons, ih _ (.inr (List.cons_ne_nil d rest)), hc, hlength]
      rfl
  | case5 current c rest hpair hends ih =>
    have hc : breaksAt (c :: rest) 0 = false := by simp [breaksAt, hends]
    rw [startsAfter_cons, ih _ (.inl (List.cons_ne_nil c current)), hc]
    rfl

theorem map_start_linesOf {text : String} (h : text ≠ "") :
    (linesOf text).map (·.start) =
      Position.starts (breaksAt text.toList) text.toList.length := by
  have hchars : text.toList ≠ [] := fun hnil => h (String.toList_eq_nil_iff.1 hnil)
  have hstarts := map_start_place 0 [] text.toList (.inr hchars)
  simpa [linesOf, startsAfter, Position.starts, Nat.add_comm] using hstarts

/-- The line and the column of an offset in a text that reaches that far. -/
theorem lineAt?_linesOf {text : String} {n : Nat} (h : text ≠ "") (hn : n ≤ text.toList.length) :
    ∃ line column, lineAt? (linesOf text) n = some (line, column) ∧
      Position.counting (breaksAt text.toList) n = ⟨line + 1, column + 1⟩ := by
  have hstarts : ((linesOf text).takeWhile (·.start ≤ n)).map (·.start) =
      Position.starts (breaksAt text.toList) n := by
    rw [← Position.takeWhile_starts hn, ← map_start_linesOf h, List.takeWhile_map]
    rfl
  have hlength := congrArg List.length hstarts
  have hlast := congrArg List.getLast? hstarts
  obtain ⟨start, hstart, hcolumn⟩ := Position.getLast?_starts (breaksAt text.toList) n
  rw [List.length_map, Position.length_starts] at hlength
  rw [List.getLast?_map, hstart] at hlast
  obtain ⟨line, hline, rfl⟩ := Option.map_eq_some_iff.1 hlast
  have hmem := Position.le_of_mem_starts (List.mem_of_getLast? hstart)
  have hpos : 0 < (Position.counting (breaksAt text.toList) n).line := by
    rw [← Position.length_starts]
    exact Nat.succ_pos _
  refine ⟨((linesOf text).takeWhile (·.start ≤ n)).length - 1, n - line.start, ?_, ?_⟩
  · rw [lineAt?, charCount_linesOf, if_neg (Nat.not_lt.2 hn), hline]
  · cases hcounting : Position.counting (breaksAt text.toList) n
    rw [hcounting] at hlength hcolumn hpos
    dsimp only at hlength hcolumn hpos
    rw [hlength, Nat.sub_add_cancel hpos, Position.mk.injEq]
    omega

theorem lineAt?_eq_none {text : String} {n : Nat} (h : text = "" ∨ text.toList.length < n) :
    lineAt? (linesOf text) n = none := by
  rw [lineAt?, charCount_linesOf]
  rcases h with rfl | h
  · simp [linesOf, splitLines, place]
  · rw [if_pos h]

theorem isSome_lineAt? (text : String) (n : Nat) :
    (lineAt? (linesOf text) n).isSome ↔ text ≠ "" ∧ n ≤ text.toList.length := by
  by_cases h : text ≠ "" ∧ n ≤ text.toList.length
  · obtain ⟨line, column, hat, -⟩ := lineAt?_linesOf h.1 h.2
    simp [hat, h]
  · rw [lineAt?_eq_none ((not_and_or.1 h).imp not_not.1 not_le.1)]
    simp [h]

/-! ## Marks -/

/-- Whether a report can draw a mark: the text, counted in characters, holds its first and
its last place. -/
def Reaches (text : String) (span : Span) : Prop :=
  text ≠ "" ∧ span.start ≤ text.toList.length ∧ span.stop ≤ text.toList.length + 1

theorem isSome_ofSpan? (text message : String) (number : Nat) (span : Span) :
    (Mark.ofSpan? (linesOf text) number span message).isSome ↔ Reaches text span := by
  have hstart := isSome_lineAt? text span.start
  have hlast := isSome_lineAt? text (span.stop - 1)
  unfold Mark.ofSpan? Reaches
  cases hfirst : lineAt? (linesOf text) span.start with
  | none =>
    have hnot : ¬(text ≠ "" ∧ span.start ≤ text.toList.length) := by
      rw [← hstart, hfirst]
      exact Bool.false_ne_true
    exact ⟨fun h => absurd h Bool.false_ne_true, fun h => absurd ⟨h.1, h.2.1⟩ hnot⟩
  | some first =>
    obtain ⟨htext, hle⟩ := hstart.1 (by rw [hfirst]; rfl)
    by_cases hempty : span.stop ≤ span.start
    · simp [hempty, htext, hle]
      omega
    · have hiff : (lineAt? (linesOf text) (span.stop - 1)).isSome ↔
          span.stop ≤ text.toList.length + 1 := by
        rw [hlast]
        exact ⟨fun h => by omega, fun h => ⟨htext, by omega⟩⟩
      cases hat : lineAt? (linesOf text) (span.stop - 1) <;> rw [hat] at hiff <;>
        simpa [hempty, htext, hle] using hiff

end Report

/-! ## The header -/

/-- Two lists cut at the first place of one element. -/
theorem append_cons_inj_of_notMem_left {α : Type} {a : α} {l l' r r' : List α} (h : a ∉ l)
    (h' : a ∉ l') (heq : l ++ a :: r = l' ++ a :: r') : l = l' ∧ r = r' := by
  rcases List.append_eq_append_iff.1 heq with ⟨as, hl, hr⟩ | ⟨as, hl, hr⟩
  · cases as with
    | nil => exact ⟨by rw [hl, List.append_nil], (List.cons.inj hr).2⟩
    | cons b as => exact absurd (hl ▸ by simp [(List.cons.inj hr).1]) h'
  · cases as with
    | nil => exact ⟨by rw [hl, List.append_nil], (List.cons.inj hr).2.symm⟩
    | cons b as => exact absurd (hl ▸ by simp [(List.cons.inj hr).1]) h

/-- A position as reports and locations write it. -/
def Position.text (p : Position) : String := s!"{p.line}:{p.column}"

theorem Location.text_source (path : String) (span : Span) (p : Position) :
    (Location.source path span p).text = path ++ ":" ++ p.text := by
  change path ++ ":" ++ toString p.line ++ ":" ++ toString p.column =
    path ++ ":" ++ (toString p.line ++ ":" ++ toString p.column)
  simp only [String.append_assoc]

theorem Position.toList_text (p : Position) :
    p.text.toList = (toString p.line).toList ++ ':' :: (toString p.column).toList := by
  change (toString p.line ++ ":" ++ toString p.column).toList = _
  rw [String.toList_append, String.toList_append, List.append_assoc]
  rfl

theorem Position.text_bracket_inj {p q : Position} {u v : String}
    (h : p.text ++ "]" ++ u = q.text ++ "]" ++ v) : p = q := by
  have hlist := congrArg String.toList h
  simp only [String.toList_append, Position.toList_text, List.append_assoc,
    List.cons_append] at hlist
  obtain ⟨hline, hrest⟩ := append_cons_inj_of_notMem_left
    (notMem_toString rfl p.line) (notMem_toString rfl q.line) hlist
  obtain ⟨hcolumn, -⟩ := append_cons_inj_of_notMem_left
    (notMem_toString rfl p.column) (notMem_toString rfl q.column) hrest
  cases p
  cases q
  congr
  · exact digits_inj hline
  · exact digits_inj hcolumn

theorem Position.unknown_ne_text_bracket {p : Position} {u v : String} :
    "?:?" ++ "]" ++ u ≠ p.text ++ "]" ++ v := by
  intro h
  have hunknown : "?:?".toList = ['?'] ++ ':' :: ['?'] := rfl
  have hlist := congrArg String.toList h
  rw [String.toList_append, String.toList_append, String.toList_append, String.toList_append,
    Position.toList_text, hunknown, List.append_assoc, List.append_assoc, List.append_assoc,
    List.append_assoc] at hlist
  obtain ⟨hline, -⟩ := append_cons_inj_of_notMem_left (by decide) (notMem_toString rfl p.line) hlist
  exact notMem_toString (c := '?') rfl p.line (hline ▸ List.mem_singleton_self _)

namespace Report

/-- The first line of a report, with its end. -/
def headerLine (d : Diagnostic) : String :=
  s!"[{d.code.text}] {heading d.severity}: {d.message}" ++ "\n"

/-- Whether a report shows a place in its header. -/
def ShowsPlace (d : Diagnostic) (place report : String) : Prop :=
  ∃ indent rest, report = headerLine d ++ spaces indent ++ "╭─[" ++ place ++ "]" ++ rest

theorem spaces_corner_inj {m n : Nat} {u v : String}
    (h : spaces m ++ "╭─[" ++ u = spaces n ++ "╭─[" ++ v) : u = v := by
  have hcorner : "╭─[".toList = '╭' :: ['─', '['] := rfl
  have hspace (k : Nat) : '╭' ∉ List.replicate k ' ' := fun hmem =>
    absurd (List.eq_of_mem_replicate hmem) (by decide)
  have hlist := congrArg String.toList h
  simp only [String.toList_append, spaces, String.toList_ofList, List.append_assoc, hcorner,
    List.cons_append] at hlist
  obtain ⟨-, hrest⟩ := append_cons_inj_of_notMem_left (hspace m) (hspace n) hlist
  simpa [String.toList_inj] using hrest

/-- Whether a label is drawn as a mark in a file, and not as a note. -/
def isHere (path : String) (l : Label) : Bool :=
  match l.location with
  | .source other _ _ => Path.same other path
  | .commandLine => false

/-- The spans of a diagnostic that are to be marked in a file, with their wordings: its own,
and those of the labels in the same file. -/
def markedSpans (d : Diagnostic) (path : String) (span : Span) : List (Span × String) :=
  (span, d.message) :: (d.labels.filter (isHere path)).map fun l =>
    ((l.location.span?).getD .nowhere, l.message)

/-- The marks of a report. -/
def marksOf (d : Diagnostic) (path : String) (span : Span) (text : String) : List Mark :=
  ((markedSpans d path span).zipIdx.map fun ((span, message), number) =>
    Mark.ofSpan? (linesOf text) number (clamp text.utf8ByteSize span) message).filterMap id

theorem exists_intercalate_cons (first : String) (rest : List String) :
    ∃ after, "\n".intercalate (first :: rest) = first ++ after := by
  cases rest with
  | nil => exact ⟨"", by simp⟩
  | cons second rest => exact ⟨"\n" ++ "\n".intercalate (second :: rest), by
      rw [String.intercalate_cons_cons, String.append_assoc]⟩

/-- The place in the header of a report. -/
def placeText (text : String) (offset : Nat) : String :=
  match lineAt? (linesOf text) offset with
  | some (line, column) => Position.text ⟨line + 1, column + 1⟩
  | none => "?:?"

variable {d : Diagnostic} {path text : String} {span : Span} {p : Position}

theorem marksOf_eq_nil : marksOf d path span text = [] ↔
    ∀ s ∈ markedSpans d path span, ¬Reaches text (clamp text.utf8ByteSize s.1) := by
  rw [marksOf, List.filterMap_eq_nil_iff]
  simp only [List.mem_map, id]
  constructor
  · intro h s hs hreaches
    obtain ⟨i, hi⟩ := List.getElem?_of_mem hs
    have hnone := h _ ⟨(s, i), List.mem_zipIdx_iff_getElem?.2 hi, rfl⟩
    have hsome := (isSome_ofSpan? text s.2 i _).2 hreaches
    rw [hnone] at hsome
    exact Bool.false_ne_true hsome
  · rintro h _ ⟨⟨s, i⟩, hs, rfl⟩
    have hnot := h s (List.fst_mem_of_mem_zipIdx hs)
    rw [← isSome_ofSpan? text s.2 i] at hnot
    exact Option.not_isSome_iff_eq_none.1 hnot

theorem exists_body_cons (path text : String) (first : Mark) (rest : List Mark) (offset : Nat)
    (note : Option String) :
    ∃ indent rows, body path (linesOf text) offset (first :: rest) note =
      (spaces indent ++ "╭─[" ++ path ++ ":" ++ placeText text offset ++ "]") :: rows := by
  unfold placeText body
  cases hat : lineAt? (linesOf text) offset with
  | none => exact ⟨_, _, rfl⟩
  | some at? => exact ⟨_, _, rfl⟩

theorem exists_render_eq (text : String) (hlocation : d.location = .source path span p) :
    ∃ note, render d text = "\n".intercalate
      (s!"[{d.code.text}] {heading d.severity}: {d.message}" :: body path (linesOf text)
        (clamp text.utf8ByteSize span).start (marksOf d path span text) note) ++ "\n" := by
  rw [render, hlocation]
  exact ⟨_, rfl⟩

theorem render_of_reaches (hlocation : d.location = .source path span p)
    (h : ∃ s ∈ markedSpans d path span, Reaches text (clamp text.utf8ByteSize s.1)) :
    ShowsPlace d (path ++ ":" ++ placeText text (clamp text.utf8ByteSize span).start)
      (render d text) := by
  obtain ⟨note, hrender⟩ := exists_render_eq text hlocation
  obtain ⟨first, rest, hmarks⟩ := List.exists_cons_of_ne_nil
    (fun hnil => by
      obtain ⟨s, hs, hreaches⟩ := h
      exact marksOf_eq_nil.1 hnil s hs hreaches : marksOf d path span text ≠ [])
  obtain ⟨indent, rows, hbody⟩ := exists_body_cons path text first rest
    (clamp text.utf8ByteSize span).start note
  obtain ⟨after, hafter⟩ := exists_intercalate_cons
    (spaces indent ++ "╭─[" ++ path ++ ":" ++
      placeText text (clamp text.utf8ByteSize span).start ++ "]") rows
  refine ⟨indent, after ++ "\n", ?_⟩
  rw [hrender, hmarks, hbody, String.intercalate_cons_cons, hafter, headerLine]
  simp only [String.append_assoc]

/-- A report without a mark is its first line. -/
theorem render_of_not_reaches (hlocation : d.location = .source path span p)
    (h : ∀ s ∈ markedSpans d path span, ¬Reaches text (clamp text.utf8ByteSize s.1)) :
    render d text = headerLine d := by
  obtain ⟨note, hrender⟩ := exists_render_eq text hlocation
  rw [hrender, marksOf_eq_nil.2 h]
  rfl

theorem showsPlace_inj {place place' report : String}
    (h : ShowsPlace d (path ++ ":" ++ place) report)
    (h' : ShowsPlace d (path ++ ":" ++ place') report) :
    ∃ u v, place ++ "]" ++ u = place' ++ "]" ++ v := by
  obtain ⟨indent, rest, rfl⟩ := h
  obtain ⟨indent', rest', heq⟩ := h'
  simp only [String.append_assoc, String.append_right_inj] at heq
  have hplace := spaces_corner_inj (u := path ++ (":" ++ (place ++ ("]" ++ rest))))
    (v := path ++ (":" ++ (place' ++ ("]" ++ rest'))))
    (by rwa [String.append_assoc, String.append_assoc])
  simp only [String.append_right_inj] at hplace
  exact ⟨rest, rest', by rwa [String.append_assoc, String.append_assoc]⟩

theorem not_showsPlace_headerLine {place : String} : ¬ShowsPlace d place (headerLine d) := by
  rintro ⟨indent, rest, heq⟩
  have hlist := congrArg (List.length ∘ String.toList) heq
  simp at hlist

/-- When the header of a report shows the location of its diagnostic: something is marked,
and up to the start of the location lines and columns are the same in bytes and in
characters. -/
theorem showsPlace_location_iff {file : SourceFile} (hlocation : d.location = .within file span)
    (hstop : span.start ≤ span.stop) (hinside : span.stop ≤ (bytesOf file.text).length) :
    ShowsPlace d d.location.text (render d file.text) ↔
      (∃ s ∈ markedSpans d file.path span, Reaches file.text (clamp file.text.utf8ByteSize s.1)) ∧
      span.start ≤ file.text.toList.length ∧
      Position.counting (breaksAt file.text.toList) span.start =
        Position.counting (isNewlineAt (bytesOf file.text)) span.start := by
  have hclamp : (clamp file.text.utf8ByteSize span).start = span.start := by
    rw [← length_bytesOf]
    exact Nat.min_eq_left (hstop.trans hinside)
  have hposition := positionAt_eq_counting (hstop.trans hinside)
  have htext : d.location.text =
      file.path ++ ":" ++ (positionAt (bytesOf file.text) span.start).text := by
    rw [hlocation, Location.within, Location.text_source]
  by_cases hmarked : ∃ s ∈ markedSpans d file.path span,
      Reaches file.text (clamp file.text.utf8ByteSize s.1)
  · have hshows := render_of_reaches (hlocation : d.location = .source file.path span _) hmarked
    rw [hclamp] at hshows
    obtain ⟨s, hs, hnonempty, -⟩ := id hmarked
    by_cases hreach : span.start ≤ file.text.toList.length
    · obtain ⟨line, column, hat, hcounting⟩ := lineAt?_linesOf hnonempty hreach
      rw [placeText, hat] at hshows
      constructor
      · intro h
        rw [htext] at h
        obtain ⟨u, v, heq⟩ := showsPlace_inj hshows h
        exact ⟨hmarked, hreach, by rw [hcounting, Position.text_bracket_inj heq, hposition]⟩
      · rintro ⟨-, -, heq⟩
        rw [htext, hposition, ← heq, hcounting]
        exact hshows
    · rw [placeText, lineAt?_eq_none (.inr (Nat.not_le.1 hreach))] at hshows
      refine ⟨fun h => ?_, fun h => absurd h.2.1 hreach⟩
      rw [htext] at h
      obtain ⟨u, v, heq⟩ := showsPlace_inj hshows h
      exact absurd heq Position.unknown_ne_text_bracket
  · refine ⟨fun h => ?_, fun h => absurd h.1 hmarked⟩
    rw [render_of_not_reaches (hlocation : d.location = .source file.path span _)
      fun s hs hreaches => hmarked ⟨s, hs, hreaches⟩] at h
    exact absurd h not_showsPlace_headerLine

/-! ## Texts all of whose positions are shown -/

/-- A text of ASCII characters that does not end in a newline, and in which no character
before the last ends a line but newlines and the carriage returns before them. -/
structure PlainText (text : String) : Prop where
  nonempty : text ≠ ""
  ascii : ∀ c ∈ text.toList, c.utf8Size = 1
  last : ∀ {i : Nat}, text.toList[i]? = some '\n' → i + 1 < text.toList.length
  pairs : ∀ {i : Nat} {c : Char}, text.toList[i]? = some c → endsLine c → c ≠ '\n' →
    i + 1 < text.toList.length → c = '\r' ∧ text.toList[i + 1]? = some '\n'

theorem length_utf8_cons (c : Char) (cs : List Char) :
    (utf8 (c :: cs)).length = c.utf8Size + (utf8 cs).length := by
  rw [utf8, List.flatMap_cons, List.length_append, String.length_utf8EncodeChar, ← utf8]

theorem length_le_length_utf8 (cs : List Char) : cs.length ≤ (utf8 cs).length := by
  induction cs with
  | nil => exact Nat.zero_le _
  | cons c cs ih =>
    have hpos := c.utf8Size_pos
    rw [length_utf8_cons, List.length_cons]
    omega

/-- A text has as many bytes as characters only if each character is one byte. -/
theorem length_utf8_le_iff {cs : List Char} :
    (utf8 cs).length ≤ cs.length ↔ ∀ c ∈ cs, c.utf8Size = 1 := by
  induction cs with
  | nil => simp [utf8]
  | cons c cs ih =>
    have hpos := c.utf8Size_pos
    have hrest := length_le_length_utf8 cs
    calc (utf8 (c :: cs)).length ≤ (c :: cs).length
        ↔ c.utf8Size = 1 ∧ (utf8 cs).length ≤ cs.length := by
          rw [length_utf8_cons, List.length_cons]
          omega
      _ ↔ ∀ d ∈ c :: cs, d.utf8Size = 1 := by
          rw [List.forall_mem_cons]
          exact and_congr_right fun _ => ih

theorem isNewlineAt_utf8 {cs : List Char} (h : ∀ c ∈ cs, c.utf8Size = 1) (i : Nat) :
    isNewlineAt (utf8 cs) i = (cs[i]? == some '\n') := by
  induction cs generalizing i with
  | nil => rfl
  | cons c cs ih =>
    have hc := h c (List.mem_cons_self ..)
    have hbytes : utf8 (c :: cs) = c.val.toUInt8 :: utf8 cs := by
      rw [utf8, List.flatMap_cons, String.utf8EncodeChar_eq_singleton hc]
      rfl
    rw [hbytes]
    cases i with
    | zero =>
      have hsmall : c.val.toNat ≤ 127 := Char.utf8Size_eq_one_iff.1 hc
      have hiff : c.val.toUInt8 = newline ↔ c = '\n' := by
        refine ⟨fun heq => Char.ext (UInt32.toNat_inj.1 ?_), fun heq => by rw [heq]; rfl⟩
        have hnat : c.val.toUInt8.toNat = 10 := congrArg UInt8.toNat heq
        rw [UInt32.toNat_toUInt8, Nat.mod_eq_of_lt (by omega)] at hnat
        exact hnat
      exact Bool.eq_iff_iff.2 (by simpa [isNewlineAt] using hiff)
    | succ i => exact ih (fun d hd => h d (List.mem_cons_of_mem _ hd)) i

/-- In a plain text a line ends for a report where it ends for a location. -/
theorem PlainText.breaksAt_eq {text : String} (h : PlainText text) (i : Nat) :
    breaksAt text.toList i = isNewlineAt (bytesOf text) i := by
  rw [bytesOf, isNewlineAt_utf8 h.ascii]
  cases hc : text.toList[i]? with
  | none => simp [breaksAt, hc]
  | some c =>
    by_cases hnewline : c = '\n'
    · subst hnewline
      simp [breaksAt, hc, h.last hc, endsLine]
    · by_cases hends : endsLine c = true ∧ i + 1 < text.toList.length
      · obtain ⟨rfl, hnext⟩ := h.pairs hc hends.1 hnewline hends.2
        simp [breaksAt, hc, hnext]
      · rw [not_and'] at hends
        by_cases hlt : i + 1 < text.toList.length
        · simp [breaksAt, hc, hends hlt, hnewline]
        · simp [breaksAt, hc, hlt, hnewline]

theorem PlainText.of_breaksAt_eq {text : String} (hnonempty : text ≠ "")
    (hascii : ∀ c ∈ text.toList, c.utf8Size = 1)
    (h : ∀ i < text.toList.length, breaksAt text.toList i = isNewlineAt (bytesOf text) i) :
    PlainText text := by
  have heq {i : Nat} {c : Char} (hc : text.toList[i]? = some c) :
      breaksAt text.toList i = (c == '\n') := by
    rw [h i (List.getElem?_eq_some_iff.1 hc).1, bytesOf, isNewlineAt_utf8 hascii, hc]
    rfl
  refine ⟨hnonempty, hascii, fun {i} hc => ?_, fun {i c} hc hends hne hlt => ?_⟩
  · have hbreaks := heq hc
    simp only [breaksAt, hc] at hbreaks
    simp_all
  · have hbreaks := heq hc
    rw [beq_eq_false_iff_ne.2 hne] at hbreaks
    simpa [breaksAt, hc, hends, hlt] using hbreaks

/-- A location computed from a span inside a file. -/
structure IsWithin (d : Diagnostic) (file : SourceFile) (span : Span) : Prop where
  location_eq : d.location = .within file span
  start_le : span.start ≤ span.stop
  stop_le : span.stop ≤ (bytesOf file.text).length

/-- An error without labels and notes at a span of a file. -/
def errorAt (file : SourceFile) (span : Span) : Diagnostic where
  code := .E3001
  message := "use of undeclared type"
  location := .within file span

/-- A plain text whose lines end in a carriage return and a newline. -/
def plainFile : SourceFile where
  path := "main.zn"
  text := "fn f() void {}\r\nfn f() {}"
  items := []

/-- A text with a character of two bytes before the second line. -/
def accentedFile : SourceFile where
  path := "main.zn"
  text := "é\nx\n"
  items := []

end Report

end IncrementalBuild
