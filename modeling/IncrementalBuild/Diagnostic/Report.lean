import IncrementalBuild.Diagnostic.Basic
import IncrementalBuild.Files.Path
import IncrementalBuild.Text.Blank
import IncrementalBuild.Text.Width

/-!
# Diagnostics drawn under the source lines they point at

A report has a header, the lines of the file that marks point into, each with its
marks drawn below it, one note and a closing rule. Marks count characters, lines
end at any of the Unicode line terminators, and columns follow the width of the
characters on a terminal.

A mark on one line is underlined and its wording hangs from the middle of the
underline. A mark over several lines runs down the left margin, with its start
arrow on the first line and its wording below the last.
-/

set_option autoImplicit false

namespace IncrementalBuild.Report

/-- Whether a character ends a line. -/
def endsLine (c : Char) : Bool :=
  c == '\n' || c == '\r' || c == '\x0b' || c == '\x0c' || c == '\u0085' || c == '\u2028' ||
    c == '\u2029'

/-- The lines of a text, each with its terminator; `open` holds the characters of the
line so far, the last first. A carriage return and a newline after it end one line. -/
def splitLines (current : List Char) : List Char → List (List Char)
  | [] => if current.isEmpty then [] else [current.reverse]
  | '\r' :: '\n' :: rest => ('\n' :: '\r' :: current).reverse :: splitLines [] rest
  | c :: rest =>
    if endsLine c then (c :: current).reverse :: splitLines [] rest
    else splitLines (c :: current) rest

/-- A line of a file: the offset of its first character, and its characters. -/
structure Line where
  start : Nat
  chars : List Char
  deriving Inhabited

namespace Line

/-- The characters of a line, its terminator among them, as a span. -/
def span (l : Line) : Span := ⟨l.start, l.start + l.chars.length⟩

/-- The characters that are drawn. -/
def shown (l : Line) : List Char := trimEnd l.chars

end Line

/-- Puts lines one after another, from an offset on. -/
def place (start : Nat) : List (List Char) → List Line
  | [] => []
  | chars :: rest => ⟨start, chars⟩ :: place (start + chars.length) rest

/-- The lines of a text. -/
def linesOf (text : String) : List Line := place 0 (splitLines [] text.toList)

/-- The number of characters of a file. -/
def charCount (lines : List Line) : Nat := (lines.flatMap (·.chars)).length

/-- The index of the line an offset lies in, and its column there. The end of the file
belongs to the last line; past it there is none. -/
def lineAt? (lines : List Line) (offset : Nat) : Option (Nat × Nat) :=
  if charCount lines < offset then none
  else
    match (lines.takeWhile (·.start ≤ offset)).getLast? with
    | some line => some ((lines.takeWhile (·.start ≤ offset)).length - 1, offset - line.start)
    | none => none

/-- A wording at a span of characters. Marks are told apart by their number. -/
structure Mark where
  number : Nat
  span : Span
  message : String
  /-- Whether the mark starts and ends on different lines. -/
  isLong : Bool
  deriving DecidableEq, Inhabited

namespace Mark

/-- The last character of a mark, or its start if it is empty. -/
def last (m : Mark) : Nat := max (m.span.stop - 1) m.span.start

/-- The number of characters of a mark. -/
def size (m : Mark) : Nat := m.span.stop - m.span.start

/-- The mark of a span, unless the file does not reach that far. -/
def ofSpan? (lines : List Line) (number : Nat) (span : Span) (message : String) :
    Option Mark := do
  let (first, _) ← lineAt? lines span.start
  let last ← if span.stop ≤ span.start then some first
    else (lineAt? lines (span.stop - 1)).map Prod.fst
  return { number, span, message, isLong := first != last }

end Mark

/-- A mark as it meets one line: the column where it is tied to the line, and whether its
wording hangs there. -/
structure Tie where
  column : Nat
  mark : Mark
  showsMessage : Bool
  deriving Inhabited

namespace Tie

/-- Whether a tie comes before another: the smaller column first, and at one column the
mark that starts later. -/
def before (a b : Tie) : Bool :=
  a.column < b.column || (a.column == b.column && b.mark.span.start ≤ a.mark.span.start)

/-- Whether a tie is one of a given mark. -/
def isOf (t : Option Tie) (m : Mark) : Bool := (t.map (·.mark.number)) == some m.number

end Tie

/-- How a character is drawn at a column of a line: tabs and other blanks as spaces. -/
def drawn (column : Nat) (c : Char) : Char × Nat :=
  if c == '\t' then (' ', (column / 4 + 1) * 4 - column)
  else if isBlank c then (' ', 1)
  else (c, columnsOf c)

/-- The width of each of the first `count` columns of a line; past its end every column
has width one. -/
def columnWidths (line : Line) (count : Nat) : List Nat :=
  let widths := line.shown.mapIdx fun column c => (drawn column c).2
  (List.range count).map fun column => (widths[column]?).getD 1

/-- Fills a column of some width: one cell, then the tail as often as there is room. -/
def fill (width : Nat) (cell tail : Char) : String :=
  match width with
  | 0 => ""
  | width + 1 => String.ofList (cell :: List.replicate width tail)

/-- A run of spaces. -/
def spaces (n : Nat) : String := String.ofList (List.replicate n ' ')

/-- The kind of row a margin stands in: a line of the file, a line left out inside a mark,
the row above or the row of the wording of the `n`-th tie, or a row of its own. -/
inductive Row where
  | line
  | gap
  | above (tie : Nat)
  | wording (tie : Nat)
  | skipped
  deriving DecidableEq

namespace Row

/-- Whether the row shows a line of the file, or stands for lines left out. -/
def isLine : Row → Bool
  | .line | .gap => true
  | _ => false

/-- The tie a row belongs to, and whether its wording hangs in that row. -/
def tie? : Row → Option (Nat × Bool)
  | .above tie => some (tie, false)
  | .wording tie => some (tie, true)
  | _ => none

end Row

/-- What a report is made of: the lines, the marks in order, and the width of the line
numbers. -/
structure Layout where
  lines : List Line
  marks : List Mark
  numberWidth : Nat

namespace Layout

/-- The marks over several lines, the longest first. -/
def longMarks (g : Layout) : List Mark :=
  (g.marks.filter (·.isLong)).mergeSort (fun a b => b.size ≤ a.size)

/-- What is known of one margin column while the marks up to it are looked at. -/
structure Column where
  /-- A corner, and whether a mark starts at it. -/
  corner : Option Bool := none
  /-- The mark whose wording row crosses the column. -/
  bar : Option Nat := none
  /-- Whether a mark runs down the column. -/
  runs : Bool := false
  /-- The mark whose arrow leaves the margin here, and whether it starts. -/
  arrow : Option (Mark × Bool) := none

/-- Takes one long mark into account: `own` says that the column is the mark's own. -/
def Column.look (line : Span) (row : Row) (ties : List Tie) (tied : Option Tie) (own : Bool)
    (c : Column) (m : Mark) : Column :=
  let isTied := Tie.isOf tied m
  if m.span.start ≤ line.stop ∧ line.start < m.span.stop then
    let starts := line.contains m.span.start
    let ends := line.contains m.last
    if isTied && row.isLine then { c with arrow := some (m, starts) }
    else if !starts && (!ends || row.isLine) then { c with runs := c.runs || own }
    else
      match row.tie? with
      | none => c
      | some (current, hangs) =>
        let mine := (ties.findIdx? (·.mark.number == m.number)).getD 0
        if current == mine then
          let c := if isTied then { c with runs := own } else c
          if isTied && starts then c
          else if hangs then
            { c with bar := some m.number, corner := if own then some starts else c.corner }
          else if !starts then { c with runs := c.runs || own }
          else c
        else { c with runs := c.runs || (own && (starts ^^ decide (current < mine))) }
  else c

/-- The two cells of margin column `index`. -/
def marginCells (g : Layout) (line : Span) (row : Row) (ties : List Tie) (tied : Option Tie)
    (index : Nat) : String :=
  let long := g.longMarks
  let c := (long.take (index + 1)).zipIdx.foldl
    (fun c (m, i) => Column.look line row ties tied (i == index) c m) ({} : Column)
  let ownArrow := c.arrow.any fun (m, _) => (long[index]?).any (·.number == m.number)
  let bar :=
    match c.arrow with
    | some (m, _) =>
      if row.isLine && !ownArrow && index + 1 != long.length then c.bar <|> some m.number
      else c.bar
    | none => c.bar
  let bar := bar.filter fun number => (tied.map (·.mark.number)) != some number || !row.isLine
  match c.corner, bar, c.runs, c.arrow with
  | some starts, _, _, _ => if starts then "╭─" else "╰─"
  | none, some _, _, _ => "──"
  | none, none, true, _ => if row == .gap then "┆ " else "│ "
  | none, none, false, some (_, starts) =>
    if row.isLine then
      if index == long.length then "▶ "
      else if ownArrow then (if starts then "╭─" else "├─")
      else "──"
    else "  "
  | none, none, false, none => "  "

/-- The margin of a row at the line with number `index`: the number of the line or room for
it, the rule, and the columns of the long marks. -/
def margin (g : Layout) (index : Nat) (row : Row) (ties : List Tie) (tied : Option Tie) :
    String :=
  let head :=
    match row with
    | .line =>
      let number := toString (index + 1)
      spaces (g.numberWidth - number.length) ++ number ++ " │"
    | .gap => spaces (g.numberWidth + 1) ++ "┆"
    | _ => spaces (g.numberWidth + 1) ++ "│"
  let long := g.longMarks
  let columns :=
    if row == .skipped || long.isEmpty then []
    else
      let line := ((g.lines[index]?).map Line.span).getD .nowhere
      (List.range (long.length + 1)).map (g.marginCells line row ties tied)
  " " ++ head ++ " " ++ String.join columns

/-- The tie of a long mark at a line where it starts or ends. -/
def longTie? (line : Line) (m : Mark) : Option Tie :=
  if line.span.contains m.span.start then some ⟨m.span.start - line.start, m, false⟩
  else if line.span.contains m.last then some ⟨m.last - line.start, m, true⟩
  else none

/-- The long mark that is tied to a line through the margin: the first at the line. -/
def marginTie? (g : Layout) (line : Line) : Option Tie :=
  (g.longMarks.filterMap (longTie? line)).foldl
    (fun best t =>
      match best with
      | none => some t
      | some b => if b.before t then some b else some t)
    none

/-- The ties drawn below a line, from left to right. A long mark that starts at the line
through the margin is not among them. -/
def tiesAt (g : Layout) (line : Line) : List Tie :=
  let tied := g.marginTie? line
  let long := g.longMarks.filterMap fun m =>
    (longTie? line m).filter fun t => t.showsMessage || !Tie.isOf tied m
  let short := g.marks.filter fun m =>
    !m.isLong && line.start ≤ m.span.start && m.span.stop ≤ line.span.stop
  let ties := long ++ short.map fun m =>
    ⟨max ((m.span.start + m.span.stop) / 2) m.span.start - line.start, m, true⟩
  ties.mergeSort Tie.before

/-- The number of columns the rows below a line have. -/
def reach (line : Line) (ties : List Tie) : Nat :=
  ties.foldl
    (fun n t => if t.mark.isLong then line.chars.length else max n (t.mark.span.stop - line.start))
    0 + 2

/-- The tie whose rule runs through a column in the rows of tie `row`. -/
def ruleAt? (ties : List Tie) (tied : Option Tie) (column row : Nat) : Option Tie :=
  (ties.zipIdx.find? fun (t, i) =>
    !Tie.isOf tied t.mark && t.column == column && row ≤ i).map Prod.fst

/-- The row above the wording of tie `row`: underlines first, and the rules down to the
wordings still to come. -/
def rowAbove (line : Line) (ties : List Tie) (tied : Option Tie) (row : Nat) : String :=
  let cells := (columnWidths line (reach line ties)).zipIdx.map fun (width, column) =>
    let underlined := row == 0 && ties.any fun t =>
      !t.mark.isLong && t.mark.span.contains (line.start + column)
    match ruleAt? ties tied column row with
    | some t =>
      if underlined then fill width '┬' '─'
      else if t.mark.isLong && row == 0 then fill width '▲' ' '
      else fill width '│' ' '
    | none => if underlined then fill width '─' '─' else fill width ' ' ' '
  String.join cells

/-- The row of the wording of tie `row`. -/
def rowOfWording (line : Line) (ties : List Tie) (tied : Option Tie) (row : Nat) (t : Tie) :
    String :=
  let cells := (columnWidths line (reach line ties)).zipIdx.map fun (width, column) =>
    let level := (decide (t.column < column) ^^ t.mark.isLong) ||
      (t.showsMessage && decide (t.column < column))
    if column == t.column && !Tie.isOf tied t.mark then
      fill width (if t.mark.isLong then (if t.showsMessage then '┴' else '╯') else '╰') '─'
    else if level then fill width '─' '─'
    else
      match ruleAt? ties tied column row with
      | some _ => fill width '│' ' '
      | none => fill width ' ' ' '
  String.join cells ++ if t.showsMessage then " " ++ t.mark.message else ""

/-- A line of the file as it is drawn. -/
def shownLine (line : Line) : String :=
  String.join <| line.shown.mapIdx fun column c =>
    let (shown, width) := drawn column c
    if isBlank c then fill width shown shown else shown.toString

/-- The rows of one line and of the marks tied to it. -/
def rowsAt (g : Layout) (index : Nat) (line : Line) : List String :=
  let ties := g.tiesAt line
  let tied := g.marginTie? line
  (g.margin index .line ties tied ++ shownLine line) ::
    (ties.zipIdx.map fun (t, row) =>
      [g.margin index (.above row) ties tied ++ rowAbove line ties tied row,
        g.margin index (.wording row) ties tied ++ rowOfWording line ties tied row t]).flatten

/-- The rows of lines; `skipping` says that the line before was left out. Of the lines no
mark is tied to, the first in a row is drawn as a gap, and a gap in a mark may take one row
more. -/
def rowsOf (g : Layout) : (skipping : Bool) → List (Nat × Line) → List String
  | _, [] => []
  | skipping, (index, line) :: rest =>
    if (g.tiesAt line).isEmpty && (g.marginTie? line).isNone then
      let inside := g.longMarks.any fun m => m.span.contains line.start
      if skipping then rowsOf g true rest
      else if inside then g.margin index .gap [] none :: rowsOf g true rest
      else g.margin index .skipped [] none :: rowsOf g true rest
    else g.rowsAt index line ++ rowsOf g false rest

end Layout

/-- The number of digits of a number. -/
def digitCount (n : Nat) : Nat := (toString n).length

/-- The heading of a severity. -/
def heading : Severity → String
  | .error => "Error"
  | .warning => "Warning"
  | .note => "Advice"

/-- The body of a report: the place of `position` in the header, the rows of the marked
lines, the note and the closing rule. Without marks there is no body. -/
def body (path : String) (lines : List Line) (position : Nat) (marks : List Mark)
    (note : Option String) : List String :=
  match marks with
  | [] => []
  | first :: rest =>
    let start := rest.foldl (fun n m => min n m.span.start) first.span.start
    let stop := rest.foldl (fun n m => max n m.span.stop) first.span.stop
    let firstLine := ((lineAt? lines start).map Prod.fst).getD 0
    let endLine := ((lineAt? lines (max (stop - 1) start)).map (·.1 + 1)).getD lines.length
    let g : Layout := { lines, marks, numberWidth := digitCount endLine }
    let place :=
      match lineAt? lines position with
      | some (line, column) => s!"{line + 1}:{column + 1}"
      | none => "?:?"
    let indent := spaces (g.numberWidth + 2)
    let rows := ((lines.zipIdx.map fun (line, index) => (index, line)).take endLine).drop firstLine
    let notes :=
      match note with
      | some text =>
        let margin := g.margin 0 (.above 0) [] none
        [margin, margin ++ "Note: " ++ text]
      | none => []
    [indent ++ "╭─[" ++ path ++ ":" ++ place ++ "]", indent ++ "│"] ++ g.rowsOf false rows ++
      notes ++ [String.ofList (List.replicate (g.numberWidth + 2) '─') ++ "╯"]

/-- A span cut to the bytes of a text. -/
def clamp (length : Nat) (s : Span) : Span :=
  let start := min s.start length
  ⟨start, max start (min s.stop length)⟩

/-- Draws a diagnostic over the text of the file it points into. Labels in that file become
marks; labels elsewhere become notes, and of all notes the last is drawn. A diagnostic that
points at no file is written on lines of its own. -/
def render (d : Diagnostic) (source : String) : String :=
  match d.location with
  | .commandLine => d.text ++ "\n"
  | .source path span _ =>
    let lines := linesOf source
    let length := source.utf8ByteSize
    let isHere := fun (l : Label) =>
      match l.location with
      | .source other _ _ => Path.same other path
      | .commandLine => false
    let marked := (span, d.message) :: (d.labels.filter isHere).map fun l =>
      ((l.location.span?).getD .nowhere, l.message)
    let marks := (marked.zipIdx.map fun ((span, message), number) =>
      Mark.ofSpan? lines number (clamp length span) message).filterMap id
    let elsewhere := (d.labels.filter (!isHere ·)).map fun l =>
      s!"{l.message}: {l.location.text}"
    let note := (elsewhere ++ d.notes).getLast?
    let header := s!"[{d.code.text}] {heading d.severity}: {d.message}"
    let position := (clamp length span).start
    "\n".intercalate (header :: body path lines position marks note) ++ "\n"

end IncrementalBuild.Report
