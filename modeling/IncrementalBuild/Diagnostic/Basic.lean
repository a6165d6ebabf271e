import IncrementalBuild.Diagnostic.Code
import IncrementalBuild.Source.Text
import IncrementalBuild.Syntax.Error
import IncrementalBuild.Syntax.Tree

/-!
# Diagnostics

What a build tells its user about a source file: a code, a wording, a place, further
places with a wording each, and notes. `Diagnostic.text` writes all of it, one place
or note a line.
-/

set_option autoImplicit false

namespace IncrementalBuild

/-- How grave a diagnostic is. -/
inductive Severity where
  | error
  | warning
  | note
  deriving DecidableEq, Inhabited

/-- The written form of a severity. -/
def Severity.text : Severity → String
  | .error => "error"
  | .warning => "warning"
  | .note => "note"

/-- Where a diagnostic points: at bytes of a file, whose start has a line and a column,
or at nothing in a file. -/
inductive Location where
  | source (path : String) (span : Span) (position : Position)
  | commandLine
  deriving DecidableEq, Inhabited

namespace Location

/-- The place of a span in a revision of a file. -/
def within (file : SourceFile) (span : Span) : Location :=
  .source file.path span (positionAt (bytesOf file.text) span.start)

/-- The start of a file that has not been read as text. -/
def startOf (path : String) : Location := .source path .nowhere .first

/-- The bytes a location points at. -/
def span? : Location → Option Span
  | .source _ span _ => some span
  | .commandLine => none

/-- The written form of a location. -/
def text : Location → String
  | .source path _ position => s!"{path}:{position.line}:{position.column}"
  | .commandLine => "<command line>"

end Location

/-- A further place with its wording. -/
structure Label where
  location : Location
  message : String
  deriving DecidableEq, Inhabited

/-- A problem a user can mend. -/
structure Diagnostic where
  code : ErrorCode
  message : String
  location : Location
  severity : Severity := .error
  labels : List Label := []
  notes : List String := []
  deriving DecidableEq, Inhabited

namespace Diagnostic

/-- An error that has no place in a file. -/
def ofCommandLine (message : String) : Diagnostic :=
  { code := .E9002, message, location := .commandLine }

/-- Whether a diagnostic is an error. -/
def isError (d : Diagnostic) : Bool := d.severity == .error

/-- The written form: the problem, then its labels, then its notes, a line each. -/
def text (d : Diagnostic) : String :=
  s!"{d.location.text}: {d.severity.text}[{d.code.text}]: {d.message}"
    ++ String.join (d.labels.map fun l => s!"\n  {l.location.text}: {l.message}")
    ++ String.join (d.notes.map fun note => s!"\n  = note: {note}")

/-- A syntax error of a revision of a file; where a delimiter is open is a label. -/
def ofSyntaxError (file : SourceFile) (e : SyntaxError) : Diagnostic where
  code := e.code
  message := e.message
  location := .within file e.span
  labels := e.openedAt.toList.map fun span => ⟨.within file span, "opened here"⟩

end Diagnostic

/-- The diagnostics of the running build cycle, in the order of their arrival. -/
structure DiagnosticLog where
  entries : List Diagnostic := []
  deriving Inhabited

namespace DiagnosticLog

/-- Adds a diagnostic at the end. -/
def push (log : DiagnosticLog) (d : Diagnostic) : DiagnosticLog := ⟨log.entries ++ [d]⟩

/-- Adds diagnostics at the end, in order. -/
def extend (log : DiagnosticLog) (ds : List Diagnostic) : DiagnosticLog := ⟨log.entries ++ ds⟩

/-- Takes every diagnostic out. -/
def drain (log : DiagnosticLog) : List Diagnostic × DiagnosticLog := (log.entries, {})

/-- Throws every diagnostic away and says how many there were. -/
def discard (log : DiagnosticLog) : Nat × DiagnosticLog := (log.entries.length, {})

/-- The number of diagnostics. -/
def size (log : DiagnosticLog) : Nat := log.entries.length

/-- Whether there is no diagnostic. -/
def isEmpty (log : DiagnosticLog) : Bool := log.entries.isEmpty

end DiagnosticLog

end IncrementalBuild
