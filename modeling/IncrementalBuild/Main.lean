import IncrementalBuild.Command.Line

/-!
# The command

Gathers the files and the environment variables a command line is about, runs it and
prints what it leaves. A command that watches a file looks at the file again and again,
and rebuilds it whenever its bytes differ from those it saw last.
-/

set_option autoImplicit false

namespace IncrementalBuild

namespace Command

/-- The names loaders have. -/
def loaderNames : List String :=
  ["ld-linux-x86-64.so.2", "ld-linux-aarch64.so.1", "ld-linux-riscv64-lp64d.so.1",
    "ld-musl-x86_64.so.1", "ld-musl-aarch64.so.1", "ld64.so.1", "ld64.so.2"]

/-- The directories that may have a part of the native runtime. -/
def runtimeDirs (libcDir : Option String) : List String :=
  match libcDir with
  | some dir => [dir]
  | none => (NativeRuntime.systemLibDirs ++ NativeRuntime.systemLoaderDirs).eraseDups

/-- The files that may be a part of the native runtime. -/
def runtimeFiles (libcDir : Option String) : List String :=
  (runtimeDirs libcDir).flatMap fun dir =>
    (NativeRuntime.startupName :: NativeRuntime.libraryNames ++ loaderNames).map (Path.join dir)

/-- Puts what is at a path of the system into a tree. -/
def load (t : FileTree) (path : String) : IO FileTree := do
  match ← (IO.FS.readBinFile path).toBaseIO with
  | .ok bytes => return t.write path bytes false
  | .error (.inappropriateType ..) => return t.makeDirectory path
  | .error _ => return t

/-- Puts the root file into a tree, as it is now. -/
def loadRoot (t : FileTree) (root : String) : IO FileTree := load (t.remove root) root

/-- The environment of a command about a root file. -/
def environment (root : Option String) : IO Environment := do
  let libcDir ← IO.getEnv "ZINC_LIBC_DIR"
  let linkerProgram ← IO.getEnv "ZINC_CC"
  let workingDir ← IO.currentDir
  let files ← (root.toList ++ runtimeFiles libcDir).foldlM load {}
  return { files, workingDir := workingDir.toString, libcDir,
           linkerProgram := linkerProgram.getD "cc" }

/-- The root file of a command line. -/
def root? : CommandLine → Option String
  | .build root _ | .watch root _ => some root
  | _ => none

/-- Prints what a command leaves. -/
def report (r : CommandResult) : IO Unit := do
  (← IO.getStderr).putStr r.stderr
  (← IO.getStdout).putStr r.stdout
  (← IO.getStdout).flush

/-- How long to wait between two looks at a watched file, in milliseconds. -/
def pause : UInt32 := 200

/-- Rebuilds a root file whenever its bytes change. -/
partial def watchLoop (w : Workshop) (root : String) : IO Unit := do
  IO.sleep pause
  let files ← loadRoot w.files root
  let isSame := (files.read root).toOption == (w.files.read root).toOption
  if isSame then watchLoop w root
  else
    let (w, result) := CommandLine.rewatch w files root
    report result
    watchLoop w root

/-- Runs a command line. -/
def run (env : Environment) (line : CommandLine) : IO UInt32 := do
  match line with
  | .watch root args =>
    let (options, warnings) := CommandLine.readOptions args
    let complaints := CommandLine.warningText warnings
    match CommandLine.beginWatch env root options with
    | .error result =>
      report (result.afterErrors complaints)
      return result.code.toUInt32
    | .ok (w, result) =>
      report (result.afterErrors complaints)
      watchLoop w root
      return 0
  | line =>
    let result := CommandLine.run env line
    report result
    return result.code.toUInt32

end Command

end IncrementalBuild

def main (args : List String) : IO UInt32 := do
  let line := IncrementalBuild.CommandLine.ofArgs args
  let env ← IncrementalBuild.Command.environment (IncrementalBuild.Command.root? line)
  IncrementalBuild.Command.run env line
