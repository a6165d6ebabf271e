import IncrementalBuild.Build.Error
import IncrementalBuild.Config.Settings

/-!
# Machines

The architectures programs can be built for, and the machine a target is configured to:
how wide its pointers are and in which order it stores bytes.
-/

set_option autoImplicit false

namespace IncrementalBuild

/-- An architecture programs can be built for. -/
structure Architecture where
  name : String
  pointerBits : Nat
  littleEndian : Bool
  deriving DecidableEq, Inhabited

namespace Architecture

/-- Every architecture. -/
def all : List Architecture :=
  [⟨"x86_64", 64, true⟩, ⟨"aarch64", 64, true⟩, ⟨"riscv64", 64, true⟩, ⟨"powerpc64", 64, false⟩,
    ⟨"s390x", 64, false⟩, ⟨"x86", 32, true⟩, ⟨"arm", 32, true⟩, ⟨"wasm32", 32, true⟩]

/-- The architecture with a name. -/
def ofName? (name : String) : Option Architecture := all.find? (·.name == name)

/-- The written form of a data layout: the byte order, then the size and the alignment of a
pointer. -/
def layout (a : Architecture) : String :=
  (if a.littleEndian then "e" else "E") ++ s!"-p:{a.pointerBits}:{a.pointerBits}"

end Architecture

/-- A machine that programs are built for. -/
structure Machine where
  target : Target
  mode : BuildMode
  layout : String
  deriving DecidableEq, Inhabited

/-- Configures a machine for a target, whose architecture has to be known. -/
def Machine.configure (target : Target) (mode : BuildMode) : Except BuildError Machine :=
  match Architecture.ofName? target.arch with
  | some a => .ok { target, mode, layout := a.layout }
  | none => .error ⟨.toolchainFailure, s!"no backend registered for target `{target.text}`"⟩

end IncrementalBuild
