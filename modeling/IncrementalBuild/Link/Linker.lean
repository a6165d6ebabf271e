import IncrementalBuild.Link.Command
import IncrementalBuild.Link.Program
import IncrementalBuild.Text.Blank

/-!
# Linkers

The system linker runs a program over the objects of a build; a dry run does nothing.
Without objects, or if the result is text, there is nothing to link.
-/

set_option autoImplicit false

namespace IncrementalBuild

/-- The linkers a build can use. -/
inductive Linker where
  | system (program : String)
  | dryRun
  deriving DecidableEq, Inhabited

namespace Linker

/-- The error of a program that could not be started. -/
def startError (program : String) (reason : FileError) : BuildError where
  kind := if reason = .notFound then .toolchainFailure else .linkFailure
  message := s!"{program}: {reason.text}"

/-- The error of a program that ended badly, with what it wrote to its error output. -/
def endError (program : String) (run : ProgramRun) : BuildError :=
  let said := String.ofList (trim (decodeLossy run.errorOutput))
  ⟨.linkFailure, s!"{program} exited with {run.ending.text}: {said}"⟩

/-- Links with a program. -/
def runSystem (files : FileTree) (program : String) (input : LinkInput) : Except BuildError Unit :=
  match Program.run files program ((input.command program).drop 1) with
  | .error reason => .error (startError program reason)
  | .ok run => if run.ending.isSuccess then .ok () else .error (endError program run)

/-- Links the result of a build. `input` is what there is to link, which may have failed to
be put together; a linker that has no use for it does not look. -/
def link (l : Linker) (files : FileTree) (settings : Settings)
    (input : Except BuildError LinkInput) : Except BuildError Unit :=
  match l with
  | .dryRun => .ok ()
  | .system program =>
    if settings.emit = .binary then do
      let input ← input
      if input.objects.isEmpty then return ()
      else runSystem files program input
    else .ok ()

/-- Whether a linker asks for what there is to link. -/
def needsInput (l : Linker) (settings : Settings) : Bool :=
  match l with
  | .dryRun => false
  | .system _ => settings.emit = .binary

end Linker

end IncrementalBuild
