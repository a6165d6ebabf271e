import IncrementalBuild.Command.Usage
import IncrementalBuild.Config.Options
import IncrementalBuild.Diagnostic.Report
import IncrementalBuild.Session.Cycle

/-!
# Building from a command line

A build makes a session for one file, runs its first cycle and tells what came of it: a
line on the cycle on the standard output, and the problems, each with the source lines
it is about, on the error output.
-/

set_option autoImplicit false

namespace IncrementalBuild

/-- What a command finds around it. -/
structure Environment where
  files : FileTree
  workingDir : String
  /-- The directory that is said to hold the native runtime. -/
  libcDir : Option String := none
  /-- The program that links. -/
  linkerProgram : String := "cc"

/-- What a command leaves: its exit code and its two outputs. -/
structure CommandResult where
  code : Nat := 0
  stdout : String := ""
  stderr : String := ""
  deriving DecidableEq, Inhabited

namespace CommandResult

/-- Whether the command did what it was asked to do. -/
def isSuccess (r : CommandResult) : Bool := r.code == 0

/-- A result with more on the error output before all that is there. -/
def afterErrors (r : CommandResult) (text : String) : CommandResult :=
  { r with stderr := text ++ r.stderr }

/-- A command that could not begin. -/
def refused (reason : String) : CommandResult :=
  { code := 1, stderr := Usage.lines [s!"error: {reason}"] }

end CommandResult

namespace Environment

/-- What a search for the native runtime finds. -/
def nativeSearch (env : Environment) : Except NativeRuntimeError NativeRuntime :=
  match env.libcDir with
  | some dir => NativeRuntime.locate env.files dir
  | none => NativeRuntime.locateInSystem env.files

/-- The linker options ask for. -/
def linker (env : Environment) (options : BuildOptions) : Linker :=
  match options.linker.getD .system with
  | .system => .system env.linkerProgram
  | .dryRun => .dryRun

/-- A session for a file, or the reason why there is none. -/
def openSession (env : Environment) (root : String) (options : BuildOptions) :
    Except String Workshop := do
  let settings ← options.settings root
  let toolchain : Toolchain := { search := env.nativeSearch }
  let setup : SessionSetup :=
    { settings, plan := { linker := some (env.linker options) }, workingDir := env.workingDir }
  match toolchain.createSession setup with
  | (.error e, _) => throw e.text
  | (.ok session, toolchain) => return { session, toolchain, files := env.files }

/-- The text of the file a diagnostic is about, as far as there is one. -/
def sourceOf (files : FileTree) (d : Diagnostic) : String :=
  match d.location with
  | .commandLine => ""
  | .source path _ _ =>
    match files.read path with
    | .error _ => ""
    | .ok bytes => (decode bytes).toOption.getD ""

end Environment

namespace BuildEvent

/-- The line on a cycle. -/
def summary (e : BuildEvent) : String :=
  match e.outcome with
  | .ok => s!"cycle {e.cycle}: ok"
  | .error reason => s!"cycle {e.cycle}: error: {reason.text}"
  | .fail ds =>
    let plural := if ds.length = 1 then "" else "s"
    s!"cycle {e.cycle}: failed with {ds.length} error{plural}"

/-- The problems of a cycle, with the source lines they are about. -/
def problems (e : BuildEvent) (files : FileTree) : String :=
  match e.outcome with
  | .fail ds => String.join (ds.map fun d => Report.render d (Environment.sourceOf files d))
  | _ => ""

/-- Whether a cycle did what it was to do. -/
def isSuccess (e : BuildEvent) : Bool := e.outcome = .ok

end BuildEvent

/-- What a session that reported a cycle leaves: what it told while it worked, then the report. -/
def Workshop.result (w : Workshop) (event : BuildEvent) : CommandResult where
  code := if event.isSuccess then 0 else 1
  stdout := Usage.lines [event.summary]
  stderr := Usage.lines w.session.told ++ event.problems w.files

/-- The complaint about a session that ended before its first report. -/
def noReportText : String := "session stopped without reporting"

/-- Builds a file once. -/
def buildOnce (env : Environment) (root : String) (options : BuildOptions) : CommandResult :=
  match env.openSession root options with
  | .error reason => .refused reason
  | .ok w =>
    match w.start with
    | (w, some event) => w.result event
    | (_, none) => .refused noReportText

end IncrementalBuild
