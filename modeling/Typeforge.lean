import Typeforge.Arena.Basic
import Typeforge.Arena.Height
import Typeforge.Arena.Identity
import Typeforge.Arena.JsonNeeds
import Typeforge.Arena.Lower
import Typeforge.Arena.Walk
import Typeforge.Calendar.Civil
import Typeforge.Calendar.Instant
import Typeforge.Code.Basic
import Typeforge.Code.Json
import Typeforge.Code.Listing
import Typeforge.Code.Path
import Typeforge.CommandLine.Command
import Typeforge.CommandLine.Failure
import Typeforge.CommandLine.Options
import Typeforge.CommandLine.Outcome
import Typeforge.CommandLine.Query
import Typeforge.CommandLine.Run
import Typeforge.Compile.Checks
import Typeforge.Compile.Emits
import Typeforge.Compile.Entry
import Typeforge.Compile.Error
import Typeforge.Compile.Language
import Typeforge.Compile.Reports
import Typeforge.Compile.Site
import Typeforge.Compile.Transforms
import Typeforge.Config
import Typeforge.Documents
import Typeforge.Engine
import Typeforge.Files.Basic
import Typeforge.Files.Glob
import Typeforge.Files.Memory
import Typeforge.Filters
import Typeforge.Generator
import Typeforge.Graph.Basic
import Typeforge.Graph.Json
import Typeforge.Graph.Literal
import Typeforge.Graph.TypeId
import Typeforge.Handle
import Typeforge.Json.Basic
import Typeforge.Json.Decode
import Typeforge.Json.Pointer
import Typeforge.Json.Printer
import Typeforge.Json.Raw
import Typeforge.Json.Reader
import Typeforge.Main
import Typeforge.Members
import Typeforge.Mock.Arguments
import Typeforge.Mock.Draw
import Typeforge.Mock.Sampler
import Typeforge.Mock.Walk
import Typeforge.Number.Binary
import Typeforge.Number.Layout
import Typeforge.Number.Reading
import Typeforge.Number.Shortest
import Typeforge.Proofs.Absence
import Typeforge.Proofs.Agreement
import Typeforge.Proofs.Compiling.Build
import Typeforge.Proofs.Compiling.Built
import Typeforge.Proofs.Compiling.Code
import Typeforge.Proofs.Compiling.Inversion
import Typeforge.Proofs.Lowering.Signatures
import Typeforge.Proofs.Lowering.Marks
import Typeforge.Proofs.Lowering.Merging
import Typeforge.Proofs.Lowering.Sweeps
import Typeforge.Proofs.Lowering.Walking
import Typeforge.Proofs.Numbers.Content
import Typeforge.Proofs.Running.Reports
import Typeforge.Proofs.Running.Tests
import Typeforge.Proofs.Types.Faithful
import Typeforge.Proofs.Types.Needs
import Typeforge.Proofs.Types.Tree
import Typeforge.Proofs.Types.Unfolding
import Typeforge.Registry
import Typeforge.Run.Checks
import Typeforge.Run.Emits
import Typeforge.Run.Error
import Typeforge.Run.Program
import Typeforge.Run.Reports
import Typeforge.Run.Transforms
import Typeforge.Signature
import Typeforge.Snapshot
import Typeforge.Sweep.Agreement
import Typeforge.Sweep.Fixtures
import Typeforge.Sweep.Run
import Typeforge.Text.Diagnostic
import Typeforge.Text.Integer
import Typeforge.Text.Invisible
import Typeforge.Text.Lines
import Typeforge.Text.Pattern
import Typeforge.Text.Quoted
import Typeforge.Value.Basic
import Typeforge.Value.Codec
import Typeforge.Value.Diagnostic
import Typeforge.Value.Json
import Typeforge.Proofs.Numbers.Decimals
import Typeforge.Proofs.Running.Emits
import Typeforge.Proofs.Reference
import Typeforge.Proofs.Answers
import Typeforge.Proofs.Arguments
import Typeforge.Proofs.Sharing
import Typeforge.Proofs.Identities
import Typeforge.Proofs.Compiling.Calls
import Typeforge.Proofs.Running.Found
import Typeforge.Proofs.Closure
import Typeforge.Proofs.Compiling.Depth
import Typeforge.Proofs.Lowering.Cycles
import Typeforge.Proofs.Recursive
import Typeforge.Proofs.Documents.Plain
import Typeforge.Proofs.Types.Parts
import Typeforge.Proofs.Serialization
import Typeforge.Proofs.Types.Slots
import Typeforge.Proofs.Numbers.Shortest
import Typeforge.Proofs.Documents.Numerals
import Typeforge.Proofs.Unions
import Typeforge.Proofs.Running.Ending
import Typeforge.Proofs.Running.Judging
import Typeforge.Proofs.Documents.Dates
import Typeforge.Proofs.Documents.Carried
import Typeforge.Proofs.Types.Exact
import Typeforge.Proofs.Types.Portable
import Typeforge.Proofs.Running.Filling
import Typeforge.Proofs.Running.Making
import Typeforge.Proofs.Running.Carrying
import Typeforge.Proofs.RoundTrip
import Typeforge.Proofs.Types.Guarded
import Typeforge.Proofs.Halting
import Typeforge.Proofs.Halting.Emits
import Typeforge.Proofs.Halting.Growth
import Typeforge.Proofs.Halting.Reach
import Typeforge.Proofs.Halting.Reports
import Typeforge.Proofs.Halting.Tests
import Typeforge.Proofs.Halting.Transforms
import Typeforge.Proofs.Halting.Encoding
import Typeforge.Proofs.Numbers.Ranges
import Typeforge.Proofs.Mocks.Drawing
import Typeforge.Proofs.Mocks.Conforming
import Typeforge.Proofs.Compiling.Failing
import Typeforge.Proofs.Lowering.Places
import Typeforge.Proofs.Lowering.Reaching
import Typeforge.Proofs.Lowering.Spelling
import Typeforge.Proofs.Compiling.Refused
import Typeforge.Proofs.Refusals
import Typeforge.Proofs.Running.Stops
import Typeforge.Proofs.Revivers
import Typeforge.Proofs.Mocks.Returning
import Typeforge.Proofs.TextRoundTrip
import Typeforge.Proofs.Lowering.Causes
import Typeforge.Proofs.Lowering.Visits
import Typeforge.Proofs.Lowering.WellFormed
import Typeforge.Proofs.UnionRoundTrip
import Typeforge.Proofs.DateTexts
import Typeforge.Proofs.Documents.Printed
import Typeforge.Proofs.Stored.Code
import Typeforge.Proofs.Stored.Graphs
import Typeforge.Proofs.Stored.Snapshots
import Typeforge.Proofs.Lowering.LeastHeights
import Typeforge.Proofs.Mocks.Minimal
import Typeforge.Proofs.Stored.Compiled
import Typeforge.Proofs.Running.Alike
import Typeforge.Proofs.Restoring
import Typeforge.Proofs.Codecs
import Typeforge.Proofs.Documents.NumberTexts
import Typeforge.Proofs.ArgumentChecks
import Typeforge.Proofs.Documents.Projections
import Typeforge.Proofs.PathTexts
import Typeforge.Proofs.Documents.Labels
import Typeforge.Proofs.Nulls
import Typeforge.Proofs.Mocks.Arguments
import Typeforge.Proofs.IntegerTexts
