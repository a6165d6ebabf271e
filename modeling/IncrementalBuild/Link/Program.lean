import IncrementalBuild.Files.Tree
import IncrementalBuild.Link.Script

/-!
# Programs

Running a program by its name. A file can be run if it is executable and its first line says
which program reads it: a shell, or a program for which the same holds.
-/

set_option autoImplicit false

namespace IncrementalBuild

/-- What the first line of a file says about the program that reads it. -/
structure Shebang where
  interpreter : String
  argument : Option String
  deriving DecidableEq

namespace Shebang

/-- How many bytes of a file are looked at. -/
def size : Nat := 256

/-- Whether a byte separates words. -/
def isBlank (b : UInt8) : Bool := b == 32 || b == 9

/-- Whether a byte ends the name of the program. -/
def endsName (b : UInt8) : Bool := isBlank b || b == 0

/-- The text of some bytes, without the blanks at its end. -/
def textOf (bytes : Bytes) : String :=
  String.ofList (decodeLossy (bytes.reverse.dropWhile isBlank).reverse)

/-- Reads the first line of a file. A name that may be cut off is no name. -/
def ofBytes? (bytes : Bytes) : Option Shebang :=
  match bytes.take size with
  | 35 :: 33 :: rest =>
    let line := (rest.takeWhile (· != newline)).dropWhile isBlank
    let name := line.takeWhile (!endsName ·)
    let after := line.dropWhile (!endsName ·)
    let isCut := after.isEmpty && !rest.contains newline && size ≤ bytes.length
    let argument := textOf ((after.dropWhile isBlank).takeWhile (· != 0))
    if name.isEmpty || isCut then none
    else some ⟨textOf name, if argument.isEmpty then none else some argument⟩
  | _ => none

/-- The names of the shells. -/
def shellNames : List String := ["sh", "bash", "dash"]

/-- The directories of the programs every system has. -/
def systemDirs : List String := ["/bin/", "/usr/bin/"]

/-- Whether a path is that of one of some programs every system has. -/
def isSystem (names : List String) (path : String) : Bool :=
  systemDirs.any fun dir => names.any fun name => path == dir ++ name

/-- Whether a shell reads the file, which may be looked for by its name. -/
def isShell (s : Shebang) : Bool :=
  isSystem shellNames s.interpreter
    || isSystem ["env"] s.interpreter && s.argument.any shellNames.contains

/-- Whether the first command that fails ends the script. -/
def stopsOnFailure (s : Shebang) : Bool :=
  s.argument.any fun a => a.toList.head? = some '-' && a.contains 'e'

end Shebang

namespace Program

/-- How many programs may read each other before a shell has to. -/
def maxLevels : Nat := 5

/-- How the programs end that every system has and that only end. -/
def systemEnd? (path : String) : Option ProgramEnd :=
  if Shebang.isSystem ["true", "echo"] path then some (.exited 0)
  else if Shebang.isSystem ["false"] path then some (.exited 1)
  else none

/-- Runs the file at a path. -/
def runFile (files : FileTree) :
    (levels : Nat) → (path : String) → (args : List String) → Except FileError ProgramRun
  | 0, _, _ => .error .tooManyLevels
  | levels + 1, path, args =>
    match systemEnd? path with
    | some ending => .ok { ending }
    | none => do
      match ← files.find path with
      | .file bytes true =>
        match Shebang.ofBytes? bytes.toList with
        | none => throw .badFormat
        | some s =>
          if s.isShell then
            return Script.run ⟨path, args⟩ s.stopsOnFailure (decodeLossy bytes.toList)
          else runFile files levels s.interpreter (s.argument.toList ++ path :: args)
      | _ => throw .permissionDenied

/-- The directories programs are looked for in. -/
def searchDirs : List String :=
  ["/usr/local/sbin", "/usr/local/bin", "/usr/sbin", "/usr/bin", "/sbin", "/bin"]

/-- Runs the first file of a name that is found in some directories. What must not be run is
passed over, and remembered in `denied`. -/
def search (files : FileTree) (name : String) (args : List String) (denied : Bool) :
    List String → Except FileError ProgramRun
  | [] => .error (if denied then .permissionDenied else .notFound)
  | dir :: dirs =>
    match runFile files maxLevels (Path.join dir name) args with
    | .error .notFound | .error .notADirectory => search files name args denied dirs
    | .error .permissionDenied => search files name args true dirs
    | result => result

/-- Runs a program with arguments. A name without a slash is looked for where programs are,
and never in the working directory. -/
def run (files : FileTree) (program : String) (args : List String) : Except FileError ProgramRun :=
  if (program :: args).any (·.contains '\x00') then .error .zeroInArgument
  else if program.isEmpty then .error .notFound
  else if program.contains '/' then runFile files maxLevels program args
  else search files program args false searchDirs

end Program

end IncrementalBuild
