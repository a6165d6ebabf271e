import IncrementalBuild.Build.Error
import IncrementalBuild.Config.Target
import IncrementalBuild.Files.Tree
import IncrementalBuild.Text.Pieces

/-!
# The native runtime

A dynamically linked program needs the start-up code and the library of the system's C
runtime, and the loader that starts it. A directory is searched for them.
-/

set_option autoImplicit false

namespace IncrementalBuild

/-- Where the native runtime is. -/
structure NativeRuntime where
  libDir : String
  dynamicLinker : String
  deriving DecidableEq, Inhabited

/-- Why there is no native runtime. -/
inductive NativeRuntimeError where
  | notFound (searched : List String)
  | missingDynamicLinker (libDir : String)
  deriving DecidableEq, Inhabited

namespace NativeRuntimeError

/-- The wording of the error. -/
def message : NativeRuntimeError → String
  | .notFound [] => "no C runtime found in <no directories>"
  | .notFound searched => "no C runtime found in " ++ ", ".intercalate searched
  | .missingDynamicLinker dir => s!"C runtime in {dir} has no dynamic linker"

/-- The build error it becomes. -/
def toBuildError (e : NativeRuntimeError) : BuildError where
  kind := match e with
    | .notFound _ => .nativeRuntimeNotFound
    | .missingDynamicLinker _ => .missingDynamicLinker
  message := e.message

end NativeRuntimeError

namespace NativeRuntime

/-- The start-up code. -/
def startupName : String := "crt1.o"

/-- The file names of the library. -/
def libraryNames : List String := ["libc.so", "libc.so.6", "libc.a"]

/-- What the file name of a loader starts with. -/
def loaderBeginnings : List String := ["ld-linux", "ld-musl", "ld64.so"]

/-- Whether a directory has the start-up code and the library. -/
def isIn (files : FileTree) (dir : String) : Bool :=
  files.isFile (Path.join dir startupName)
    && libraryNames.any fun name => files.leadsSomewhere (Path.join dir name)

/-- Whether a file name is that of a loader. -/
def isLoaderName (name : String) : Bool :=
  loaderBeginnings.any fun b => b.toList.isPrefixOf name.toList

/-- The first loader in one of several directories. -/
def loaderIn? (files : FileTree) (dirs : List String) : Option String :=
  dirs.findSome? fun dir => ((files.namesIn dir).find? isLoaderName).map (Path.join dir)

/-- Searches directories for the native runtime. The loader may also be in other directories
than the library, which are looked at after the one that has the library. -/
def locateAmong (files : FileTree) (libDirs loaderDirs : List String) :
    Except NativeRuntimeError NativeRuntime :=
  match libDirs.find? (isIn files) with
  | none => .error (.notFound libDirs)
  | some dir =>
    match loaderIn? files (dir :: loaderDirs) with
    | some loader => .ok { libDir := dir, dynamicLinker := loader }
    | none => .error (.missingDynamicLinker dir)

/-- Searches one directory for the native runtime. -/
def locate (files : FileTree) (dir : String) : Except NativeRuntimeError NativeRuntime :=
  locateAmong files [dir] [dir]

/-- The directory systems with libraries for several architectures keep those of the host in. -/
def multiarchDir : String := s!"/usr/lib/{Target.host.arch}-linux-gnu"

/-- The directories of the system that may have the library, in the order of the search. -/
def systemLibDirs : List String := [multiarchDir, "/usr/lib64", "/usr/lib", "/lib64", "/lib"]

/-- The directories of the system that may have the loader, in the order of the search. -/
def systemLoaderDirs : List String := ["/lib64", "/lib", "/usr/lib64", "/usr/lib", multiarchDir]

/-- Searches the directories of the system for the native runtime. -/
def locateInSystem (files : FileTree) : Except NativeRuntimeError NativeRuntime :=
  locateAmong files systemLibDirs systemLoaderDirs

end NativeRuntime

end IncrementalBuild
