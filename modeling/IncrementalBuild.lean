import IncrementalBuild.Backend.Options
import IncrementalBuild.Main
import IncrementalBuild.Proofs.Types.Ledger
import IncrementalBuild.Task.Lock
import IncrementalBuild.Proofs.Types.Denotation
import IncrementalBuild.Proofs.Types.Canonical
import IncrementalBuild.Proofs.Source.Bytes
import IncrementalBuild.Proofs.Syntax.Offsets
import IncrementalBuild.Proofs.Syntax.Grammar
import IncrementalBuild.Proofs.Syntax.Readers
import IncrementalBuild.Proofs.Syntax.Types
import IncrementalBuild.Proofs.Syntax.Items
import IncrementalBuild.Proofs.Syntax.Lexing
import IncrementalBuild.Proofs.Source.Names
import IncrementalBuild.Proofs.Syntax.Extents
import IncrementalBuild.Proofs.Syntax.Slices
import IncrementalBuild.Proofs.Session.Changes
import IncrementalBuild.Proofs.Task.Group
import IncrementalBuild.Proofs.Session.Table
import IncrementalBuild.Proofs.Session.Frames
import IncrementalBuild.Proofs.Session.Reachable
import IncrementalBuild.Proofs.Session.CleanTable
import IncrementalBuild.Proofs.Types.Meaning
import IncrementalBuild.Proofs.Types.Reading
import IncrementalBuild.Proofs.Session.Holdings
import IncrementalBuild.Proofs.Session.Finding
import IncrementalBuild.Proofs.Session.Steps
import IncrementalBuild.Proofs.Session.Levels
import IncrementalBuild.Proofs.Session.Additions
import IncrementalBuild.Proofs.Session.Symbols
import IncrementalBuild.Proofs.Session.Settled
import IncrementalBuild.Proofs.Session.Outcome
import IncrementalBuild.Proofs.Session.Places
import IncrementalBuild.Proofs.Session.Verdict
import IncrementalBuild.Proofs.Session.CleanVerdict
import IncrementalBuild.Proofs.Types.Reclaiming
import IncrementalBuild.Proofs.Types.Residents
import IncrementalBuild.Proofs.Syntax.Acceptance
import IncrementalBuild.Proofs.Syntax.Munch
import IncrementalBuild.Proofs.Session.FirstCycle
import IncrementalBuild.Proofs.Task.History
import IncrementalBuild.Proofs.Session.Effects
import IncrementalBuild.Proofs.Session.Runs
import IncrementalBuild.Proofs.Session.Once
import IncrementalBuild.Proofs.Session.Deliveries
import IncrementalBuild.Proofs.Session.Holders
import IncrementalBuild.Proofs.Session.Repeats
import IncrementalBuild.Proofs.Session.Unchanged
import IncrementalBuild.Proofs.Syntax.Spans
import IncrementalBuild.Proofs.Session.Problems
import IncrementalBuild.Proofs.Session.Pointing
import IncrementalBuild.Proofs.Decl.Claims
import IncrementalBuild.Proofs.Decl.Collisions
import IncrementalBuild.Proofs.Session.Reporting
import IncrementalBuild.Proofs.Task.Simulation
import IncrementalBuild.Proofs.Session.Waiting
import IncrementalBuild.Proofs.Session.Blur
import IncrementalBuild.Proofs.Session.Blurred
import IncrementalBuild.Proofs.Session.BlurredRuns
import IncrementalBuild.Proofs.Session.Rejections
import IncrementalBuild.Proofs.Task.Desk
import IncrementalBuild.Proofs.Task.Join
import IncrementalBuild.Proofs.Types.Counts
import IncrementalBuild.Proofs.Session.Residency
import IncrementalBuild.Proofs.Source.Interning
import IncrementalBuild.Proofs.Diagnostic.Positions
import IncrementalBuild.Proofs.Syntax.Joining
import IncrementalBuild.Proofs.Syntax.Moving
import IncrementalBuild.Proofs.Syntax.Lines
import IncrementalBuild.Proofs.Source.Numbers
import IncrementalBuild.Proofs.Syntax.Exchanging
import IncrementalBuild.Proofs.Syntax.Slots
import IncrementalBuild.Proofs.Types.Spelling
import IncrementalBuild.Proofs.Types.RoundTrip
import IncrementalBuild.Proofs.Types.WrittenForms
import IncrementalBuild.Proofs.Session.Blockers
import IncrementalBuild.Proofs.Session.Loans
import IncrementalBuild.Proofs.Syntax.Nesting
import IncrementalBuild.Proofs.Types.Naming
import IncrementalBuild.Proofs.Types.BadNames
import IncrementalBuild.Proofs.Syntax.Blame
import IncrementalBuild.Proofs.Syntax.Braces
import IncrementalBuild.Proofs.Session.Blocks
import IncrementalBuild.Proofs.Syntax.Delimiters
import IncrementalBuild.Proofs.Files.Watching
import IncrementalBuild.Proofs.Config.Merging
import IncrementalBuild.Proofs.Diagnostic.Asides
import IncrementalBuild.Proofs.Config.Targets
import IncrementalBuild.Proofs.Syntax.Literals
