import IncrementalBuild.Config.Settings

/-!
# Options of a command line

`BuildOptions.parse` reads arguments one by one, from left to right; an argument that
means nothing leaves the options as they are and yields a warning. Options can be
merged: a switch is on if it is on in either, of two values the later one counts, and
lists are joined.
-/

set_option autoImplicit false

namespace IncrementalBuild

/-- The linkers a command line can ask for. -/
inductive LinkerChoice where
  | system
  | dryRun
  deriving DecidableEq, Inhabited

/-- The linker a name stands for. -/
def LinkerChoice.ofName? : String → Option LinkerChoice
  | "system" | "cc" => some .system
  | "dry" | "dry-run" => some .dryRun
  | _ => none

/-- What the arguments of a command line ask for. -/
structure BuildOptions where
  release : Bool := false
  mode : Option BuildMode := none
  target : Option String := none
  emit : Option EmitKind := none
  lib : Bool := false
  obj : Bool := false
  static : Bool := false
  linkLibs : List String := []
  libDirs : List String := []
  rpaths : List String := []
  outDir : Option String := none
  linker : Option LinkerChoice := none
  jobs : Option Nat := none
  verbosity : Verbosity := {}
  deriving DecidableEq, Inhabited

/-- Why an argument is ignored. -/
inductive OptionWarning where
  | unknownMode (text : String)
  | unknownEmit (text : String)
  | unknownLinker (text : String)
  | badJobs (text : String)
  | unknownOption (text : String)
  deriving DecidableEq

/-- The wording of a warning. -/
def OptionWarning.text : OptionWarning → String
  | .unknownMode s =>
    s!"warning: unknown optimization mode '{s}', options: debug, safe, fast, small"
  | .unknownEmit s => s!"warning: unknown emit type '{s}', options: bin, asm, ir"
  | .unknownLinker s => s!"warning: unknown linker '{s}', options: system, dry"
  | .badJobs s => s!"warning: invalid jobs count '{s}', using one per core"
  | .unknownOption s => s!"warning: ignoring unknown option '{s}'"

/-- An argument of a command line, understood. -/
inductive OptionArg where
  | release
  | mode (mode : BuildMode)
  | target (text : String)
  | emit (emit : EmitKind)
  | lib
  | obj
  | static
  | outDir (dir : String)
  | rpath (dir : String)
  | linker (choice : LinkerChoice)
  | jobs (count : Nat)
  | verbose (verbosity : Verbosity)
  | linkLib (name : String)
  | libDir (dir : String)
  | ignored (warning : OptionWarning)
  deriving DecidableEq

/-- The largest number of jobs. -/
def maxJobs : Nat := 18446744073709551615

/-- Reads decimal digits, of which there must be one. -/
def decimal? (digits : List Char) : Option Nat :=
  if digits.isEmpty || !digits.all Char.isDigit then none
  else some (digits.foldl (fun n c => n * 10 + (c.toNat - '0'.toNat)) 0)

/-- Reads a number of jobs, which may start with a plus sign. -/
def jobs? (text : List Char) : Option Nat :=
  let digits := match text with
    | '+' :: rest => rest
    | _ => text
  (decimal? digits).filter (· ≤ maxJobs)

namespace OptionArg

/-- A name read by a function, or the warning that nothing has that name. -/
def named {α : Type} (read? : String → Option α) (make : α → OptionArg)
    (warning : String → OptionWarning) (name : String) : OptionArg :=
  match read? name with
  | some a => make a
  | none => .ignored (warning name)

/-- The arguments that are words of their own. -/
def words : List (String × OptionArg) :=
  [("--release", .release), ("--lib", .lib), ("--obj", .obj), ("--static", .static),
    ("--verbose-tokenize", .verbose { tokens := true }),
    ("--verbose-ast", .verbose { tree := true }),
    ("--verbose-ir", .verbose { ir := true }),
    ("--verbose-link", .verbose { link := true })]

/-- The arguments that start in a given way and go on with a value. -/
def valued : List (String × (String → OptionArg)) :=
  [("--opt=", named BuildMode.ofName? .mode .unknownMode),
    ("--target=", .target),
    ("--emit=", named EmitKind.ofName? .emit .unknownEmit),
    ("--out-dir=", .outDir),
    ("--rpath=", .rpath),
    ("--linker=", named LinkerChoice.ofName? .linker .unknownLinker),
    ("--jobs=", named (jobs? ·.toList) .jobs .badJobs)]

/-- The arguments that start with a letter and go on with a value that is not empty. -/
def lettered : List (String × (String → OptionArg)) := [("-l", .linkLib), ("-L", .libDir)]

/-- What an argument means after one of several beginnings. -/
def ofBeginning? (arg : String) (table : List (String × (String → OptionArg)))
    (admits : List Char → Bool) : Option OptionArg :=
  table.findSome? fun (beginning, make) =>
    ((restAfter? beginning.toList arg.toList).filter admits).map fun rest =>
      make (String.ofList rest)

/-- What an argument means. -/
def ofText (arg : String) : OptionArg :=
  ((words.find? (·.1 == arg)).map (·.2)
    <|> ofBeginning? arg valued (fun _ => true)
    <|> ofBeginning? arg lettered (!·.isEmpty)).getD (.ignored (.unknownOption arg))

/-- The warning an argument yields. -/
def warning? : OptionArg → Option OptionWarning
  | .ignored w => some w
  | _ => none

/-- The options after one more argument. -/
def apply (o : BuildOptions) : OptionArg → BuildOptions
  | .release => { o with release := true }
  | .mode m => { o with mode := some m }
  | .target t => { o with target := some t }
  | .emit e => { o with emit := some e }
  | .lib => { o with lib := true }
  | .obj => { o with obj := true }
  | .static => { o with static := true }
  | .outDir d => { o with outDir := some d }
  | .rpath d => { o with rpaths := o.rpaths ++ [d] }
  | .linker l => { o with linker := some l }
  | .jobs n => { o with jobs := some n }
  | .verbose v => { o with verbosity := o.verbosity.merge v }
  | .linkLib l => { o with linkLibs := o.linkLibs ++ [l] }
  | .libDir d => { o with libDirs := o.libDirs ++ [d] }
  | .ignored _ => o

end OptionArg

/-- The wording of a command line that asks for a target that cannot be read. -/
def invalidTargetText (target : String) : String := s!"invalid target '{target}'"

namespace BuildOptions

/-- The options of arguments, and the warnings of those that are ignored. -/
def parse (args : List String) : BuildOptions × List OptionWarning :=
  let args := args.map OptionArg.ofText
  (args.foldl OptionArg.apply {}, args.filterMap OptionArg.warning?)

/-- The options of two command lines, the second of which comes later. -/
def merge (a b : BuildOptions) : BuildOptions where
  release := a.release || b.release
  mode := b.mode <|> a.mode
  target := b.target <|> a.target
  emit := b.emit <|> a.emit
  lib := a.lib || b.lib
  obj := a.obj || b.obj
  static := a.static || b.static
  linkLibs := a.linkLibs ++ b.linkLibs
  libDirs := a.libDirs ++ b.libDirs
  rpaths := a.rpaths ++ b.rpaths
  outDir := b.outDir <|> a.outDir
  linker := b.linker <|> a.linker
  jobs := b.jobs <|> a.jobs
  verbosity := a.verbosity.merge b.verbosity

/-- The mode that is asked for: a named one before the one releases are built in. -/
def buildMode (o : BuildOptions) : BuildMode :=
  o.mode.getD (if o.release then .releaseFast else .debug)

/-- The kind of result that is asked for: an object before a library. -/
def outputKind (o : BuildOptions) : OutputKind :=
  if o.obj then .object else if o.lib then .library else .executable

/-- The settings for a root file, or the wording of what is wrong with the options. -/
def settings (o : BuildOptions) (root : String) : Except String Settings :=
  match o.target with
  | none => .ok (settingsFor .host)
  | some text =>
    match Target.parse? text with
    | some target => .ok (settingsFor target)
    | none => .error (invalidTargetText text)
where
  settingsFor (target : Target) : Settings :=
    { Settings.forRoot root with
      target
      mode := o.buildMode
      output := o.outputKind
      linkMode := if o.static then .static else .dynamic
      emit := o.emit.getD .binary
      linkLibs := o.linkLibs
      libDirs := o.libDirs
      rpaths := o.rpaths
      outputDir := o.outDir
      verbosity := o.verbosity }

end BuildOptions

end IncrementalBuild
