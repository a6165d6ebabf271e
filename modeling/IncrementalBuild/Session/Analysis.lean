import IncrementalBuild.Diagnostic.Code
import IncrementalBuild.Source.Text
import IncrementalBuild.Syntax.Tree
import IncrementalBuild.Text.Blank
import IncrementalBuild.Types.Ty

/-!
# Analysis of blocks

An analyzer is asked about one block at a time: the body of a function, with its
parameters and the type it has to produce, or a block that runs at build time. It
accepts the block, rejects it with a problem that is reported at the block, or crashes.

The analyzer used by default looks at the signature and at whether there is a body at
all.
-/

set_option autoImplicit false

namespace IncrementalBuild

/-- A parameter with its type. -/
structure ParamBinding where
  name : String
  type : Ty
  span : Span
  deriving Inhabited

/-- The block an analyzer is asked about. -/
structure AnalysisRequest where
  declName : String
  params : List ParamBinding
  /-- The type the block has to produce. -/
  expected : Ty
  /-- What stands in the block, without the first and the last byte. -/
  source : String
  deriving Inhabited

/-- What an analyzer finds. -/
inductive AnalysisVerdict where
  | accepted
  | rejected (code : ErrorCode) (message : String)
  | crashed (message : String)
  deriving DecidableEq

/-- A judge of blocks. -/
abbrev Analyzer : Type := AnalysisRequest → AnalysisVerdict

/-- The name of blocks that run at build time. -/
def comptimeName : String := "comptime"

/-- What stands between the first and the last byte of a span, if it is text. -/
def innerSource (file : SourceFile) (block : Span) : String :=
  let inner := slice (bytesOf file.text) ⟨block.start + 1, block.stop - 1⟩
  (decode ⟨inner.toArray⟩).toOption.getD ""

/-- Whether a block of a type may be empty. -/
def Ty.producesNothing : Ty → Bool
  | .primitive .void | .primitive .noreturn => true
  | _ => false

/-- Accepts every block but an empty one that has to produce something. -/
def Analyzer.signature : Analyzer := fun r =>
  if !r.expected.producesNothing && (trim r.source.toList).isEmpty then
    .rejected .E3004 s!"`{r.declName}` returns `{r.expected.text}` but its body is empty"
  else .accepted

/-- Rejects the blocks of some declarations, crashes on those of others and leaves the rest to
another analyzer. -/
def Analyzer.faulty (rejects crashes : List String) (other : Analyzer) : Analyzer := fun r =>
  if crashes.contains r.declName then .crashed s!"analysis of {r.declName} panicked"
  else if rejects.contains r.declName then .rejected .E3003 s!"cannot analyze `{r.declName}`"
  else other r

end IncrementalBuild
