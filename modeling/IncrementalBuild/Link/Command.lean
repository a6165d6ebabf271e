import IncrementalBuild.Config.Settings
import IncrementalBuild.Link.NativeRuntime

/-!
# The command line of a linker

What a linker program is told: the kind of result, the objects, where libraries are and
which to use, and where the result goes.
-/

set_option autoImplicit false

namespace IncrementalBuild

/-- What a linker needs to know of a link. -/
structure LinkInput where
  output : String
  outputKind : OutputKind := .executable
  linkMode : LinkMode := .dynamic
  objects : List String := []
  libDirs : List String := []
  rpaths : List String := []
  libs : List String := []
  frameworks : List String := []
  native : Option NativeRuntime := none
  deriving Inhabited

namespace LinkInput

/-- The arguments that say what kind of result to make. -/
def kindArgs (i : LinkInput) : List String :=
  match i.outputKind, i.linkMode with
  | .executable, .dynamic => []
  | .executable, .static => ["-static"]
  | .library, _ => ["-shared"]
  | .object, _ => ["-r"]

/-- The arguments for the native runtime. -/
def nativeArgs (r : NativeRuntime) : List String :=
  ["-L" ++ r.libDir, "-Wl,-dynamic-linker," ++ r.dynamicLinker]

/-- The command line: the program and its arguments. -/
def command (program : String) (i : LinkInput) : List String :=
  program :: i.kindArgs ++ i.objects ++ i.libDirs.map ("-L" ++ ·)
    ++ (i.native.map nativeArgs).getD []
    ++ i.rpaths.map ("-Wl,-rpath," ++ ·) ++ i.libs.map ("-l" ++ ·)
    ++ i.frameworks.flatMap (["-framework", ·]) ++ ["-o", i.output]

end LinkInput

namespace Settings

/-- The path of the result of a build that runs in a directory. -/
def outputPath (s : Settings) (workingDir : String) : String :=
  let dir := match s.outputDir with
    | some dir => Path.join workingDir dir
    | none => workingDir
  Path.join dir s.artifactName

/-- What the linker needs to know, given the search for the native runtime, which counts
only if the result needs it. -/
def linkInput (s : Settings) (workingDir : String)
    (native : Except NativeRuntimeError NativeRuntime) : Except BuildError LinkInput := do
  let native ← if s.needsNativeRuntime then
      match native with
      | .ok r => pure (some r)
      | .error e => throw e.toBuildError
    else pure none
  return {
    output := s.outputPath workingDir
    outputKind := s.output
    linkMode := s.linkMode
    objects := s.linkObjects ++ s.assemblyFiles
    libDirs := s.libDirs
    rpaths := s.rpaths
    libs := s.linkLibs
    frameworks := s.frameworks
    native }

end Settings

end IncrementalBuild
