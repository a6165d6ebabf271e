import IncrementalBuild.Config.Target
import IncrementalBuild.Files.Path

/-!
# Settings of a build

All that a build session is told before it starts: the root file, what to make of it
and for which target, how to link it, and which tests count.
-/

set_option autoImplicit false

namespace IncrementalBuild

/-- How much a build optimises, and for what. -/
inductive BuildMode where
  | debug
  | releaseSafe
  | releaseFast
  | releaseSmall
  deriving DecidableEq, Inhabited

namespace BuildMode

/-- The long name of a mode. -/
def text : BuildMode → String
  | .debug => "Debug"
  | .releaseSafe => "ReleaseSafe"
  | .releaseFast => "ReleaseFast"
  | .releaseSmall => "ReleaseSmall"

/-- The mode a long or a short name stands for. -/
def ofName? : String → Option BuildMode
  | "debug" | "Debug" => some .debug
  | "safe" | "ReleaseSafe" => some .releaseSafe
  | "fast" | "ReleaseFast" => some .releaseFast
  | "small" | "ReleaseSmall" => some .releaseSmall
  | _ => none

/-- Whether a mode is for programs that are handed out. -/
def isRelease (m : BuildMode) : Bool := m != .debug

end BuildMode

/-- What a build makes. -/
inductive OutputKind where
  | executable
  | library
  | object
  deriving DecidableEq, Inhabited

/-- Whether libraries go into the program or are found when it starts. -/
inductive LinkMode where
  | dynamic
  | static
  deriving DecidableEq, Inhabited

/-- The form in which a build leaves its result. -/
inductive EmitKind where
  | binary
  | assembly
  | ir
  deriving DecidableEq, Inhabited

/-- The form a name stands for. -/
def EmitKind.ofName? : String → Option EmitKind
  | "bin" | "binary" => some .binary
  | "asm" => some .assembly
  | "ir" => some .ir
  | _ => none

/-- Which steps of a build are told of. -/
structure Verbosity where
  tokens : Bool := false
  tree : Bool := false
  ir : Bool := false
  link : Bool := false
  deriving DecidableEq, Inhabited

namespace Verbosity

/-- The steps told of by either of two settings. -/
def merge (a b : Verbosity) : Verbosity where
  tokens := a.tokens || b.tokens
  tree := a.tree || b.tree
  ir := a.ir || b.ir
  link := a.link || b.link

end Verbosity

/-- What a build session is told before it starts. -/
structure Settings where
  root : Option String := none
  name : String := "main"
  outputDir : Option String := none
  target : Target := .host
  mode : BuildMode := .debug
  output : OutputKind := .executable
  linkMode : LinkMode := .dynamic
  emit : EmitKind := .binary
  libDirs : List String := []
  rpaths : List String := []
  linkLibs : List String := []
  linkObjects : List String := []
  frameworks : List String := []
  assemblyFiles : List String := []
  verbosity : Verbosity := {}
  testFilters : List String := []
  testNamePrefix : Option String := none
  /-- The number of events that may wait to be read. -/
  eventCapacity : Nat := 16
  /-- The largest size in bytes of a source file. -/
  maxSourceSize : Nat := 4294967295
  deriving Inhabited

namespace Settings

/-- The settings for a root file, after which the result is named. -/
def forRoot (root : String) : Settings :=
  { root := some root, name := (Path.fileStem? root).getD "main" }

/-- Whether linking needs the native runtime: only dynamically linked programs do. -/
def needsNativeRuntime (s : Settings) : Bool :=
  s.emit = .binary && s.output = .executable && s.linkMode = .dynamic

/-- The full name of a test. -/
def testFullName (s : Settings) (name : String) : String := s.testNamePrefix.getD "" ++ name

/-- Whether a test counts: any does if there are no filters, else one whose full name
contains a filter. -/
def selectsTest (s : Settings) (name : String) : Bool :=
  s.testFilters.isEmpty
    || s.testFilters.any fun filter => occursIn filter.toList (s.testFullName name).toList

/-- The file name of the result. -/
def artifactName (s : Settings) : String :=
  match s.emit, s.output with
  | .assembly, _ => s.name ++ ".s"
  | .ir, _ => s.name ++ ".ir"
  | .binary, .executable => s.name
  | .binary, .library => "lib" ++ s.name ++ ".so"
  | .binary, .object => s.name ++ ".o"

end Settings

end IncrementalBuild
