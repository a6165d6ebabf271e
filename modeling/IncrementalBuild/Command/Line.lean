import IncrementalBuild.Command.Build

/-!
# Command lines

The first argument names a command, the second the file for those commands that need
one, and the rest are options, each of which is read on its own and added to those
before it.
-/

set_option autoImplicit false

namespace IncrementalBuild

/-- What a command line asks for. -/
inductive CommandLine where
  | help
  | version
  | build (root : String) (options : List String)
  | watch (root : String) (options : List String)
  | missingFile (command : String)
  | unknown (command : String)
  deriving DecidableEq

namespace CommandLine

/-- Reads a command line, without the name of the program. -/
def ofArgs : List String → CommandLine
  | [] => .help
  | "build" :: root :: options => .build root options
  | "watch" :: root :: options => .watch root options
  | command :: _ =>
    if command = "build" || command = "watch" then .missingFile command
    else if ["help", "--help", "-h"].contains command then .help
    else if ["version", "--version", "-V"].contains command then .version
    else .unknown command

/-- The options of a command line and the warnings about them. -/
def readOptions (args : List String) : BuildOptions × List OptionWarning :=
  args.foldl
    (fun (options, warnings) arg =>
      let (more, moreWarnings) := BuildOptions.parse [arg]
      (options.merge more, warnings ++ moreWarnings))
    ({}, [])

/-- The lines of warnings. -/
def warningText (warnings : List OptionWarning) : String :=
  Usage.lines (warnings.map OptionWarning.text)

/-- The line that tells which file is watched. -/
def watchingText (root : String) : String := Usage.lines [s!"watching {root}"]

/-- Opens a session that rebuilds a file whenever it changes, and runs its first cycle. -/
def beginWatch (env : Environment) (root : String) (options : BuildOptions) :
    Except CommandResult (Workshop × CommandResult) :=
  match env.openSession root options with
  | .error reason => .error (.refused reason)
  | .ok w =>
    match w.start with
    | (w, some event) =>
      let result := w.result event
      .ok (w, { result with stdout := watchingText root ++ result.stdout })
    | (w, none) => .ok (w, { stdout := watchingText root })

/-- Rebuilds a watched file that changed. -/
def rewatch (w : Workshop) (files : FileTree) (root : String) : Workshop × CommandResult :=
  let w := { w with files }.modify fun s =>
    { s with watcher := (s.watcher.touch root).2, told := [] }
  match w.react with
  | (w, some event) => (w, w.result event)
  | (w, none) => (w, {})

/-- Runs a command line up to its end, or up to the first change it would wait for. -/
def run (env : Environment) : CommandLine → CommandResult
  | .help => { stdout := Usage.full }
  | .version => { stdout := Usage.version }
  | .missingFile command =>
    { code := 1, stdout := Usage.options, stderr := Usage.missingFile command }
  | .unknown command =>
    { code := 1, stdout := Usage.full, stderr := Usage.unknownCommand command }
  | .build root args =>
    let (options, warnings) := readOptions args
    (buildOnce env root options).afterErrors (warningText warnings)
  | .watch root args =>
    let (options, warnings) := readOptions args
    match beginWatch env root options with
    | .error result => result.afterErrors (warningText warnings)
    | .ok (_, result) => result.afterErrors (warningText warnings)

end CommandLine

end IncrementalBuild
