import Verdicts.Advice.Finding
import Verdicts.Advice.Suggestion
import Verdicts.Display.Choices
import Verdicts.Display.Component
import Verdicts.Display.Settings
import Verdicts.Display.TraceTable
import Verdicts.Display.Value
import Verdicts.Engine.Config
import Verdicts.Engine.Execution
import Verdicts.Engine.Exit
import Verdicts.Engine.Host
import Verdicts.Engine.Options
import Verdicts.Engine.Probe
import Verdicts.Engine.Process
import Verdicts.Engine.Session
import Verdicts.Engine.Version
import Verdicts.Engine.Watch
import Verdicts.Host.Files
import Verdicts.Host.Path
import Verdicts.Invocation.Basic
import Verdicts.Invocation.Help
import Verdicts.Invocation.Reader
import Verdicts.Json.Basic
import Verdicts.Json.Numeral
import Verdicts.Json.Printer
import Verdicts.Json.Reader
import Verdicts.Main
import Verdicts.Manifest.Basic
import Verdicts.Manifest.Reader
import Verdicts.Manifest.Search
import Verdicts.Number.Binary64
import Verdicts.Number.Fixed
import Verdicts.Number.RealText
import Verdicts.Number.Shortest
import Verdicts.Outcome
import Verdicts.Proofs.Advice.ByName
import Verdicts.Proofs.Advice.Failures
import Verdicts.Proofs.Advice.Found
import Verdicts.Proofs.Advice.Locality
import Verdicts.Proofs.Advice.Modes
import Verdicts.Proofs.Advice.Order
import Verdicts.Proofs.Advice.Refinement
import Verdicts.Proofs.Advice.Subcomponents
import Verdicts.Proofs.Advice.Subjects
import Verdicts.Proofs.Advice.Table
import Verdicts.Proofs.Advice.Timeout
import Verdicts.Proofs.Advice.Verdict
import Verdicts.Proofs.Display.Integers
import Verdicts.Proofs.Display.TraceTable
import Verdicts.Proofs.Display.Values
import Verdicts.Proofs.Engine.Announcements
import Verdicts.Proofs.Engine.Attending
import Verdicts.Proofs.Engine.Discipline
import Verdicts.Proofs.Engine.Fidelity
import Verdicts.Proofs.Engine.Options
import Verdicts.Proofs.Engine.Outcome
import Verdicts.Proofs.Engine.Parties
import Verdicts.Proofs.Engine.Watching
import Verdicts.Proofs.Host.Ancestors
import Verdicts.Proofs.Host.Files
import Verdicts.Proofs.Json.Encoding
import Verdicts.Proofs.Json.Grammar
import Verdicts.Proofs.Json.Integers
import Verdicts.Proofs.Json.Literals
import Verdicts.Proofs.Json.Reading
import Verdicts.Proofs.Json.Spelling
import Verdicts.Proofs.Manifest.Nearest
import Verdicts.Proofs.Number.Natural
import Verdicts.Proofs.Record.Alike
import Verdicts.Proofs.Record.Content
import Verdicts.Proofs.Record.Members
import Verdicts.Proofs.Record.Numbers
import Verdicts.Proofs.Record.Spelling
import Verdicts.Proofs.Report.VerdictTable
import Verdicts.Proofs.Result.Attempts
import Verdicts.Proofs.Result.ByName
import Verdicts.Proofs.Result.CalleeNames
import Verdicts.Proofs.Result.Closure
import Verdicts.Proofs.Result.Coherence
import Verdicts.Proofs.Result.Extension
import Verdicts.Proofs.Result.Freezing
import Verdicts.Proofs.Result.Growth
import Verdicts.Proofs.Result.LogicalNames
import Verdicts.Proofs.Result.Lookup
import Verdicts.Proofs.Result.Projection
import Verdicts.Proofs.Result.Search
import Verdicts.Proofs.Result.Standing
import Verdicts.Proofs.Result.Steps
import Verdicts.Proofs.Result.Supersession
import Verdicts.Proofs.Result.TraceLength
import Verdicts.Proofs.Result.WellFormed
import Verdicts.Proofs.Stream.Admission
import Verdicts.Proofs.Stream.Anchoring
import Verdicts.Proofs.Stream.Blocks
import Verdicts.Proofs.Stream.Boundaries
import Verdicts.Proofs.Stream.Chunking
import Verdicts.Proofs.Stream.Current
import Verdicts.Proofs.Stream.ElementSets
import Verdicts.Proofs.Stream.Encoding
import Verdicts.Proofs.Stream.Growth
import Verdicts.Proofs.Stream.Matching
import Verdicts.Proofs.Stream.PostAnalyses
import Verdicts.Proofs.Stream.RecordOrder
import Verdicts.Proofs.Stream.Recovery
import Verdicts.Proofs.Stream.Reordering
import Verdicts.Proofs.Stream.Rewriting
import Verdicts.Proofs.Stream.Routing
import Verdicts.Proofs.Stream.Scanning
import Verdicts.Proofs.Stream.Spelling
import Verdicts.Proofs.Stream.Verdicts
import Verdicts.Proofs.Task.FailedReplay
import Verdicts.Proofs.Task.Replay
import Verdicts.Proofs.Text.Decimal
import Verdicts.Proofs.Text.Keyed
import Verdicts.Proofs.Text.Layout
import Verdicts.Proofs.Text.Replacing
import Verdicts.Proofs.Text.Utf8
import Verdicts.Record.Basic
import Verdicts.Record.DataError
import Verdicts.Record.Reader
import Verdicts.Record.Schema
import Verdicts.Record.Shape
import Verdicts.Record.StreamValue
import Verdicts.Report
import Verdicts.Result.Analysis
import Verdicts.Result.Model
import Verdicts.Result.Projection
import Verdicts.Result.Property
import Verdicts.Result.Trace
import Verdicts.Result.Transcript
import Verdicts.Result.Traversal
import Verdicts.Script.Arithmetic
import Verdicts.Script.Command
import Verdicts.Script.Editing
import Verdicts.Script.Expression
import Verdicts.Script.Format
import Verdicts.Script.Pattern
import Verdicts.Script.Reader
import Verdicts.Script.Run
import Verdicts.Script.Shell
import Verdicts.Script.Utility
import Verdicts.Stream.DecodeError
import Verdicts.Stream.Decoder
import Verdicts.Stream.Intake
import Verdicts.Stream.Scanner
import Verdicts.Task.Check
import Verdicts.Task.Doctor
import Verdicts.Task.Replay
import Verdicts.Task.Run
import Verdicts.Text.Blank
import Verdicts.Text.Column
import Verdicts.Text.Decimal
import Verdicts.Text.Hidden
import Verdicts.Text.Keyed
import Verdicts.Text.Place
import Verdicts.Text.Quoted
import Verdicts.Text.Utf8
import Verdicts.Toml.Cursor
import Verdicts.Toml.Document
import Verdicts.Toml.Node
import Verdicts.Toml.Report
import Verdicts.Toml.Scalar
import Verdicts.Toml.Value
