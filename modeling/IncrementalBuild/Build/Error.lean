/-!
# Why a build stops

A build error is a cause and a wording. It is not about the program that is built, as a
diagnostic is, but about the build: a file that cannot be read, a program that cannot be
linked, a change that cannot be taken over.
-/

set_option autoImplicit false

namespace IncrementalBuild

/-- The changes a running build cannot take over. -/
inductive Feature where
  | changedFunctionBody
  | changedDeclKind
  | deletedDecl
  | incrementalVariable
  | testDecl
  deriving DecidableEq, Inhabited

/-- The written form of a feature. -/
def Feature.text : Feature → String
  | .changedFunctionBody => "rebuilding a function whose source changed"
  | .changedDeclKind => "a declaration that changed kind"
  | .deletedDecl => "removing a deleted declaration"
  | .incrementalVariable => "incremental variable declarations"
  | .testDecl => "test declarations"

/-- The causes of a build error. -/
inductive BuildErrorKind where
  | resourceExhausted
  | fileSystem
  | linkFailure
  | toolchainFailure
  | nativeRuntimeNotFound
  | missingDynamicLinker
  | unimplemented (feature : Feature)
  | cancelled
  deriving DecidableEq, Inhabited

/-- The written form of a cause. -/
def BuildErrorKind.text : BuildErrorKind → String
  | .resourceExhausted => "resource exhausted"
  | .fileSystem => "file system error"
  | .linkFailure => "link failed"
  | .toolchainFailure => "toolchain failure"
  | .nativeRuntimeNotFound => "native C library not found"
  | .missingDynamicLinker => "dynamic linker not found"
  | .unimplemented feature => s!"unimplemented: {feature.text}"
  | .cancelled => "cancelled"

/-- A cause with its wording. -/
structure BuildError where
  kind : BuildErrorKind
  message : String
  deriving DecidableEq, Inhabited

namespace BuildError

/-- The written form of an error. -/
def text (e : BuildError) : String := s!"{e.kind.text}: {e.message}"

/-- The error of a session that was torn down. -/
def cancelled : BuildError := ⟨.cancelled, "session was torn down"⟩

/-- The error of an operation on a file, with the reason the system gives. -/
def fileSystem (path reason : String) : BuildError := ⟨.fileSystem, s!"{path}: {reason}"⟩

/-- The error of a change that cannot be taken over. -/
def unimplemented (feature : Feature) (detail : String) : BuildError :=
  ⟨.unimplemented feature, detail⟩

/-- The error of a task that did not run to its end. -/
def ofCrash (group message : String) : BuildError :=
  ⟨.toolchainFailure, s!"task in group '{group}' panicked: {message}"⟩

end BuildError

/-- The wording of a declaration whose problems are diagnostics. -/
def analysisFailedText : String := "semantic analysis failed"

end IncrementalBuild
