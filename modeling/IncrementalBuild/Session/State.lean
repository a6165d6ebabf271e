import IncrementalBuild.Backend.Machine
import IncrementalBuild.Decl.Exports
import IncrementalBuild.Decl.LinkSet
import IncrementalBuild.Decl.Table
import IncrementalBuild.Diagnostic.Basic
import IncrementalBuild.Files.Watch
import IncrementalBuild.Link.Linker
import IncrementalBuild.Session.Analysis
import IncrementalBuild.Session.Toolchain

/-!
# Sessions

A session builds one root file again and again. It keeps the declarations that are live,
the symbols they export, the functions to link and the types all of these mention, and
it notes what it asks of its analyzer and its linker.
-/

set_option autoImplicit false

namespace IncrementalBuild

/-- What a session is doing. -/
inductive SessionPhase where
  | created
  | awaitingStart
  | initialCompile
  | linking
  | reporting
  | waitingForChange
  | rebuilding
  | cancelled
  deriving DecidableEq, Inhabited

/-- The written form of a phase. -/
def SessionPhase.text : SessionPhase → String
  | .created => "created"
  | .awaitingStart => "awaiting start"
  | .initialCompile => "initial compile"
  | .linking => "linking"
  | .reporting => "reporting"
  | .waitingForChange => "waiting for change"
  | .rebuilding => "rebuilding"
  | .cancelled => "cancelled"

/-- How a build cycle ends. -/
inductive BuildOutcome where
  | ok
  | error (e : BuildError)
  | fail (diagnostics : List Diagnostic)
  deriving DecidableEq, Inhabited

/-- The report on a build cycle. Cycles are numbered from one. -/
structure BuildEvent where
  cycle : Nat
  outcome : BuildOutcome
  deriving DecidableEq, Inhabited

/-- What a session asked of its analyzer or its linker. -/
inductive JournalEntry where
  /-- The parameters come with their types as text and their spans. -/
  | analyze (declName : String) (params : List (String × String × Span)) (expected source : String)
  /-- The functions come as text, with whether they are exported. -/
  | link (cycle : Nat) (functions : List (String × Bool)) (output : String)
  | command (words : List String)

/-- How a session links: what it asks for before, the ends that are fixed in advance for the
next links, and the linker for the links after those, without which they succeed. -/
structure LinkPlan where
  usesTempDir : Bool := false
  /-- Whether the command line of a linker is written into the journal. -/
  writesCommand : Bool := false
  fixedEnds : List (Option BuildError) := []
  linker : Option Linker := some .dryRun
  deriving Inhabited

/-- What a session knows. -/
structure Session where
  id : Nat
  settings : Settings
  machine : Machine
  /-- The context of the backend it has on loan. -/
  context : Option ContextId
  analyzer : Analyzer := Analyzer.signature
  plan : LinkPlan := {}
  /-- The directory it runs in. -/
  workingDir : String
  phase : SessionPhase := .awaitingStart
  /-- Whether it was ever told to start. -/
  isStarted : Bool := false
  cycle : Nat := 0
  names : Interner := .empty
  types : TypeStore := .initial
  log : DiagnosticLog := {}
  table : DeclTable := {}
  exports : ExportTable := {}
  linkSet : LinkSet := {}
  nextDecl : DeclId := 0
  /-- The resolutions of declarations, by identity; one that is missing is empty. -/
  resolutions : List (DeclId × Memo Resolution) := []
  hasTempDir : Bool := false
  watcher : Watcher := {}
  /-- The paths it watches, by token. -/
  watched : List (FileToken × String) := []
  journal : List JournalEntry := []
  /-- What it tells about its work if its settings ask for that, a line each. -/
  told : List String := []

namespace Session

/-- Whether a session was torn down. -/
def isCancelled (s : Session) : Bool := s.phase == .cancelled

/-- Notes a problem. -/
def report (s : Session) (d : Diagnostic) : Session := { s with log := s.log.push d }

/-- Writes into the journal. -/
def note (s : Session) (e : JournalEntry) : Session := { s with journal := s.journal ++ [e] }

/-- The journal, which is empty afterwards. -/
def takeJournal (s : Session) : List JournalEntry × Session := (s.journal, { s with journal := [] })

/-- Tells lines. -/
def tell (s : Session) (lines : List String) : Session := { s with told := s.told ++ lines }

/-- The resolution of a declaration. -/
def resolution (s : Session) (id : DeclId) : Memo Resolution :=
  (List.lookup id s.resolutions).getD .empty

/-- Changes the resolution of a declaration. -/
def setResolution (s : Session) (id : DeclId) (m : Memo Resolution) : Session :=
  { s with resolutions := s.resolutions.filter (·.1 != id) ++ [(id, m)] }

/-- The live declaration of a name. -/
def decl? (s : Session) (symbol : String) : Option Decl :=
  if s.settings.root.isSome then s.table.find? symbol else none

/-- The functions to link, as the journal shows them. -/
def linkables (s : Session) : List (String × Bool) :=
  s.linkSet.functions.map fun f => (f.text s.types, f.isExport)

/-- Whether anything still refers to a declaration. -/
def refersTo (s : Session) (id : DeclId) : Bool :=
  s.table.decls.any (·.id == id) || s.exports.entries.any (·.decl.id == id)

/-- Forgets the resolutions of declarations nothing refers to, and lets go of the types they
hold. -/
def forget (s : Session) : Session :=
  let gone := s.resolutions.filter fun (id, _) => !s.refersTo id
  let held := gone.flatMap fun (_, m) => (m.peek.map Resolution.held).getD []
  { s with
    resolutions := s.resolutions.filter fun (id, _) => s.refersTo id
    types := held.foldl TypeStore.release s.types }

end Session

/-- A session at work, with the toolchain it shares and the files it sees. -/
structure Workshop where
  session : Session
  toolchain : Toolchain
  files : FileTree

namespace Workshop

/-- Changes the session. -/
def modify (w : Workshop) (f : Session → Session) : Workshop := { w with session := f w.session }

end Workshop

end IncrementalBuild
