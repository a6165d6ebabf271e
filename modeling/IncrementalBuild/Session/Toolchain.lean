import IncrementalBuild.Backend.Pool
import IncrementalBuild.Link.NativeRuntime
import IncrementalBuild.Source.Name
import IncrementalBuild.Source.Span
import IncrementalBuild.Task.Group
import IncrementalBuild.Task.Memo

/-!
# What sessions share

A toolchain owns what its sessions have in common: the contexts of the backend, what the
search for the native runtime found, which is searched for once, and the record of all
code that was generated.
-/

set_option autoImplicit false

namespace IncrementalBuild

/-- A request to generate the code of a function. -/
structure CodegenCall where
  symbol : String
  /-- The written form of the function. -/
  function : String
  declName : Name
  isExport : Bool
  bodyType : String
  bodySpan : Span
  deriving Inhabited

/-- A generator of code: how generating a function ends. -/
abbrev CodeGenerator : Type := CodegenCall → TaskOutcome

/-- The generator that always succeeds. -/
def CodeGenerator.null : CodeGenerator := fun _ => .done

/-- A generator that fails for some symbols, crashes for others and succeeds for the rest. -/
def CodeGenerator.faulty (fails crashes : List String) : CodeGenerator := fun c =>
  if crashes.contains c.symbol then .crashed (some s!"codegen of {c.symbol} panicked")
  else if fails.contains c.symbol then
    .failed ⟨.toolchainFailure, s!"codegen of {c.symbol} failed"⟩
  else .done

/-- What sessions share. -/
structure Toolchain where
  generator : CodeGenerator := CodeGenerator.null
  pool : ContextPool := {}
  /-- What a search for the native runtime finds. -/
  search : Except NativeRuntimeError NativeRuntime
  native : Memo (Except NativeRuntimeError NativeRuntime) := .empty
  /-- How often the native runtime was searched for. -/
  searches : Nat := 0
  nextSession : Nat := 1
  /-- Every request to generate code, in order. -/
  calls : List CodegenCall := []
  /-- The symbols of the functions whose code was generated, in order. -/
  generated : List String := []

namespace Toolchain

/-- The native runtime, which is searched for the first time it is asked for. -/
def nativeRuntime (t : Toolchain) : Except NativeRuntimeError NativeRuntime × Toolchain :=
  match t.native.getOrInit (some t.search) with
  | (.value found, native) =>
    (found, { t with native, searches := if t.native.isResolved then t.searches else t.searches + 1 })
  | (_, native) => (t.search, { t with native })

/-- Generates the code of a function and records that it was asked to. -/
def generate (t : Toolchain) (call : CodegenCall) : TaskOutcome × Toolchain :=
  let t := { t with calls := t.calls ++ [call] }
  match t.generator call with
  | .done => (.done, { t with generated := t.generated ++ [call.symbol] })
  | outcome => (outcome, t)

/-- Hands out the number of the next session. -/
def takeSessionId (t : Toolchain) : Nat × Toolchain :=
  (t.nextSession, { t with nextSession := t.nextSession + 1 })

/-- Lends a context of the backend. -/
def acquireContext (t : Toolchain) : Except BuildError ContextId × Toolchain :=
  let (context, pool) := t.pool.acquire
  (context, { t with pool })

/-- Takes a context of the backend back. -/
def releaseContext (t : Toolchain) (c : ContextId) : Toolchain :=
  { t with pool := t.pool.release c }

end Toolchain

end IncrementalBuild
