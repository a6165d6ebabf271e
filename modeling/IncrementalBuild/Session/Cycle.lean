import IncrementalBuild.Session.Tasks

/-!
# Build cycles

A cycle rebuilds the files that changed, links if that went well, and ends with a report:
an error if either went wrong, the problems that were noted on the way if there were any,
and success otherwise. No problem of one cycle is reported by another. After each cycle
the types nothing mentions any more are gone.
-/

set_option autoImplicit false

namespace IncrementalBuild

namespace Workshop

/-- The name of the group of tasks that come before a link. -/
def groupName : String := "prelink"

/-! ## One cycle -/

/-- Runs all the tasks of a cycle. If none failed, the session goes on to link. -/
def compile (w : Workshop) (paths : List String) : Workshop × Except BuildError Nat :=
  let run := runGroup groupName runTask BuildTask.depth (paths.map BuildTask.rebuild) w
  let w := run.state.modify Session.forget
  match run.verdict with
  | .ok n => (w.modify ({ · with phase := .linking }), .ok n)
  | .error e => (w, .error e)

/-- What there is to link, for which the native runtime may have to be found. -/
def linkInput (w : Workshop) : Except BuildError LinkInput × Workshop :=
  let s := w.session
  if s.settings.needsNativeRuntime then
    let (native, toolchain) := w.toolchain.nativeRuntime
    (s.settings.linkInput s.workingDir native, { w with toolchain })
  else (s.settings.linkInput s.workingDir w.toolchain.search, w)

/-- The program whose command line is written into the journal. -/
def journalProgram : String := "cc"

/-- Writes the command line of a linker into the journal, if the plan says so. -/
def writeCommand (w : Workshop) : Except BuildError Unit × Workshop :=
  if w.session.plan.writesCommand then
    let (input, w) := w.linkInput
    match input with
    | .error e => (.error e, w)
    | .ok input => (.ok (), w.modify (·.note (.command (input.command journalProgram))))
  else (.ok (), w)

/-- Links with the linker of the plan. -/
def useLinker (w : Workshop) : Except BuildError Unit × Workshop :=
  match w.session.plan.linker with
  | none => (.ok (), w)
  | some linker =>
    if linker.needsInput w.session.settings then
      let (input, w) := w.linkInput
      (linker.link w.files w.session.settings input, w)
    else (.ok (), w)

/-- Links: as the next end that is fixed in advance says, or else with the linker. -/
def decideLink (w : Workshop) : Except BuildError Unit × Workshop :=
  match w.session.plan.fixedEnds with
  | [] => w.useLinker
  | ending :: rest =>
    let w := w.modify fun s => { s with plan := { s.plan with fixedEnds := rest } }
    match ending with
    | some e => (.error e, w)
    | none => w.useLinker

/-- Links what the session has to link. -/
def link (w : Workshop) (cycle : Nat) : Except BuildError Unit × Workshop :=
  let w := w.modify fun s =>
    let s := s.note (.link cycle s.linkables (s.settings.outputPath s.workingDir))
    { s with hasTempDir := s.hasTempDir || s.plan.usesTempDir }
  match w.writeCommand with
  | (.error e, w) => (.error e, w)
  | (.ok (), w) => w.decideLink

/-- The outcome of a cycle, given how its link ended and the problems noted. -/
def outcome (linked : Except BuildError Unit) (log : DiagnosticLog) : BuildOutcome :=
  match linked with
  | .error e => .error e
  | .ok () => if log.isEmpty then .ok else .fail log.entries

/-- Links, if the tasks of the cycle went well, and reports. -/
def finish (w : Workshop) (compiled : Except BuildError Nat) : Workshop × BuildEvent :=
  let cycle := w.session.cycle + 1
  let (linked, w) : Except BuildError Unit × Workshop := match compiled with
    | .error e => (.error e, w)
    | .ok _ => w.link cycle
  let event : BuildEvent := { cycle, outcome := outcome linked w.session.log }
  (w.modify fun s =>
    { s with cycle, log := {}, types := s.types.reclaim, phase := .waitingForChange }, event)

/-- Runs a cycle over files that changed. -/
def runCycle (w : Workshop) (paths : List String) : Workshop × BuildEvent :=
  let (w, compiled) := w.compile paths
  w.finish compiled

/-! ## The life of a session -/

/-- Watches a path. -/
def watch (s : Session) (path : String) : Session :=
  let (token, watcher) := s.watcher.subscribe path
  { s with watcher, watched := s.watched ++ [(token, path)] }

/-- The work of a session that starts: the root file, if there is one. -/
def firstCycle (w : Workshop) : Workshop × Option BuildEvent :=
  match w.session.settings.root with
  | none => (w.modify ({ · with phase := .waitingForChange }), none)
  | some root =>
    let w := w.modify fun s => watch { s with phase := .initialCompile } root
    let (w, event) := w.runCycle [root]
    (w, some event)

/-- Starts a session, which can be done once. A session whose result needs the native runtime
looks for it. -/
def start (w : Workshop) : Workshop × Option BuildEvent :=
  if w.session.isStarted || w.session.isCancelled then (w, none)
  else
    let w := w.modify ({ · with isStarted := true })
    let w := if w.session.settings.needsNativeRuntime
      then { w with toolchain := w.toolchain.nativeRuntime.2 } else w
    w.firstCycle

/-- The paths that changed since the session last looked. -/
def takeChanges (w : Workshop) : List String × Workshop :=
  let (tokens, watcher) := w.session.watcher.takeChanges
  (tokens.filterMap fun t => List.lookup t w.session.watched, w.modify ({ · with watcher }))

/-- Begins the cycle for the changes since the last one, if the session waits for changes and
there are any. -/
def beginRebuild (w : Workshop) : Workshop × Option (Except BuildError Nat) :=
  if w.session.phase = .waitingForChange then
    let (paths, w) := w.takeChanges
    if paths.isEmpty then (w, none)
    else
      let (w, compiled) := (w.modify ({ · with phase := .rebuilding })).compile paths
      (w, some compiled)
  else (w, none)

/-- Runs the cycle for the changes since the last one, if there is anything to do. -/
def react (w : Workshop) : Workshop × Option BuildEvent :=
  match w.beginRebuild with
  | (w, none) => (w, none)
  | (w, some compiled) =>
    let (w, event) := w.finish compiled
    (w, some event)

/-- Tells the session that a path changed, and whether the session watches it. -/
def touch (w : Workshop) (path : String) : Bool × Workshop :=
  let (isWatched, watcher) := w.session.watcher.touch path
  (isWatched, w.modify ({ · with watcher }))

/-- The live declarations that the root file, as it is now, does not have. -/
def missing (w : Workshop) : List Decl :=
  match (w.files.read (w.session.settings.root.getD "")).toOption.bind (decode · |>.toOption) with
  | some text => ChangePlan.missing w.session.table.decls (parse text).items
  | none => []

/-- Ends a session. It lets go of its temporary directory, of the types nothing mentions and
of its context. -/
def teardown (w : Workshop) : Workshop :=
  if w.session.isCancelled then w
  else
    let toolchain := match w.session.context with
      | some c => w.toolchain.releaseContext c
      | none => w.toolchain
    { w with
      toolchain
      session := { w.session with
        phase := .cancelled
        context := none
        hasTempDir := false
        types := w.session.types.reclaim } }

end Workshop

/-- What a session is made with. -/
structure SessionSetup where
  settings : Settings
  analyzer : Analyzer := Analyzer.signature
  plan : LinkPlan := {}
  workingDir : String := "."

/-- Makes a session. It needs a context of the backend and a machine for its target; a context
that turns out not to be needed goes back. -/
def Toolchain.createSession (t : Toolchain) (setup : SessionSetup) :
    Except BuildError Session × Toolchain :=
  let (id, t) := t.takeSessionId
  match t.acquireContext with
  | (.error e, t) => (.error e, t)
  | (.ok context, t) =>
    match Machine.configure setup.settings.target setup.settings.mode with
    | .error e => (.error e, t.releaseContext context)
    | .ok machine =>
      (.ok { id, settings := setup.settings, machine, context := some context,
             analyzer := setup.analyzer, plan := setup.plan, workingDir := setup.workingDir }, t)

end IncrementalBuild
