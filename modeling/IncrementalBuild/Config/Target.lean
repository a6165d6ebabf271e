import IncrementalBuild.Text.Pieces

/-!
# Targets

A target says what a program is built for: an architecture, an operating system and,
if need be, a binary interface. It is written with hyphens in between, and the word
`native` stands for the machine the build runs on.
-/

set_option autoImplicit false

namespace IncrementalBuild

/-- What a program is built for. -/
structure Target where
  arch : String
  os : String
  abi : Option String := none
  deriving DecidableEq, Inhabited

namespace Target

/-- The machine the build runs on. -/
def host : Target := { arch := "x86_64", os := "linux" }

/-- The word for the machine the build runs on. -/
def hostWord : String := "native"

/-- The written form of a target. -/
def text (t : Target) : String :=
  t.arch ++ "-" ++ t.os ++ (match t.abi with
    | some abi => "-" ++ abi
    | none => "")

/-- The target of the pieces between hyphens. The first two may not be empty, the third
may be missing, and a fourth is one too many. -/
def ofPieces? : List (List Char) → Option Target
  | [arch, os] =>
    if arch.isEmpty || os.isEmpty then none
    else some { arch := String.ofList arch, os := String.ofList os }
  | [arch, os, abi] =>
    if arch.isEmpty || os.isEmpty then none
    else some { arch := String.ofList arch, os := String.ofList os, abi := some (String.ofList abi) }
  | _ => none

/-- Reads a target. -/
def parse? (text : String) : Option Target :=
  if text = hostWord then some host else ofPieces? (cutAt '-' text.toList)

end Target

end IncrementalBuild
