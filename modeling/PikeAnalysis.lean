import PikeAnalysis.Assoc
import PikeAnalysis.Bridge.Command
import PikeAnalysis.Bridge.LineReader
import PikeAnalysis.Bridge.Machine
import PikeAnalysis.Bridge.Output
import PikeAnalysis.Bridge.Query
import PikeAnalysis.Bridge.Request
import PikeAnalysis.Cli.Arguments
import PikeAnalysis.Cli.Command
import PikeAnalysis.Clock
import PikeAnalysis.Completion.Context
import PikeAnalysis.Completion.FromText
import PikeAnalysis.Completion.FromTokens
import PikeAnalysis.Concurrency.Loop
import PikeAnalysis.Concurrency.Machine
import PikeAnalysis.Concurrency.Tasks
import PikeAnalysis.Concurrency.Timers
import PikeAnalysis.Config.Environment
import PikeAnalysis.Config.Load
import PikeAnalysis.Config.Model
import PikeAnalysis.Decimal.Binary
import PikeAnalysis.Decimal.Fixed
import PikeAnalysis.Decimal.Shortest
import PikeAnalysis.Diagnostic.Basic
import PikeAnalysis.Diagnostic.Collect
import PikeAnalysis.Document.Cache
import PikeAnalysis.Document.Uri
import PikeAnalysis.Engine.Ask
import PikeAnalysis.Engine.Model
import PikeAnalysis.Engine.Queries
import PikeAnalysis.Engine.Run
import PikeAnalysis.Engine.Worker
import PikeAnalysis.Failure
import PikeAnalysis.Host
import PikeAnalysis.Include.Cache
import PikeAnalysis.Json.Basic
import PikeAnalysis.Json.Literal
import PikeAnalysis.Json.Reader
import PikeAnalysis.Json.Writer
import PikeAnalysis.Log
import PikeAnalysis.Log.Output
import PikeAnalysis.Main
import PikeAnalysis.Path
import PikeAnalysis.Position
import PikeAnalysis.Positions.Index
import PikeAnalysis.Program.Database
import PikeAnalysis.Progress
import PikeAnalysis.Proofs.Bridge.Asking
import PikeAnalysis.Proofs.Bridge.Attended
import PikeAnalysis.Proofs.Bridge.Correlation
import PikeAnalysis.Proofs.Bridge.Framing
import PikeAnalysis.Proofs.Bridge.History
import PikeAnalysis.Proofs.Bridge.Latching
import PikeAnalysis.Proofs.Bridge.RecentErrors
import PikeAnalysis.Proofs.Bridge.RequestKeys
import PikeAnalysis.Proofs.Bridge.Turnover
import PikeAnalysis.Proofs.Bridge.Turns
import PikeAnalysis.Proofs.Completion.AccessPaths
import PikeAnalysis.Proofs.Completion.Chains
import PikeAnalysis.Proofs.Concurrency.Charter
import PikeAnalysis.Proofs.Concurrency.Clockwork
import PikeAnalysis.Proofs.Concurrency.Conduct
import PikeAnalysis.Proofs.Concurrency.Contract
import PikeAnalysis.Proofs.Concurrency.Course
import PikeAnalysis.Proofs.Concurrency.Crews
import PikeAnalysis.Proofs.Concurrency.Discipline
import PikeAnalysis.Proofs.Concurrency.Interleaving
import PikeAnalysis.Proofs.Concurrency.Lasting
import PikeAnalysis.Proofs.Concurrency.Leftovers
import PikeAnalysis.Proofs.Concurrency.Operations
import PikeAnalysis.Proofs.Concurrency.Pact
import PikeAnalysis.Proofs.Concurrency.Parking
import PikeAnalysis.Proofs.Concurrency.Suiting
import PikeAnalysis.Proofs.Concurrency.Tasks
import PikeAnalysis.Proofs.Concurrency.Tickets
import PikeAnalysis.Proofs.Concurrency.Timers
import PikeAnalysis.Proofs.Concurrency.Trust
import PikeAnalysis.Proofs.Concurrency.Waking
import PikeAnalysis.Proofs.Config.Merging
import PikeAnalysis.Proofs.Decimal.Rounding
import PikeAnalysis.Proofs.Decimal.Shortest
import PikeAnalysis.Proofs.Diagnostic.Limit
import PikeAnalysis.Proofs.Diagnostic.Ranges
import PikeAnalysis.Proofs.Document.Addresses
import PikeAnalysis.Proofs.Engine.Answers
import PikeAnalysis.Proofs.Engine.Aside
import PikeAnalysis.Proofs.Engine.Atomicity
import PikeAnalysis.Proofs.Engine.Calls
import PikeAnalysis.Proofs.Engine.Closed
import PikeAnalysis.Proofs.Engine.Closing
import PikeAnalysis.Proofs.Engine.Consulting
import PikeAnalysis.Proofs.Engine.Filing
import PikeAnalysis.Proofs.Engine.InFlight
import PikeAnalysis.Proofs.Engine.Library
import PikeAnalysis.Proofs.Engine.Loading
import PikeAnalysis.Proofs.Engine.Lookups
import PikeAnalysis.Proofs.Engine.Makeup
import PikeAnalysis.Proofs.Engine.Missing
import PikeAnalysis.Proofs.Engine.Provenance
import PikeAnalysis.Proofs.Engine.Recollecting
import PikeAnalysis.Proofs.Engine.Sharing
import PikeAnalysis.Proofs.Engine.Threads
import PikeAnalysis.Proofs.Engine.Transparency
import PikeAnalysis.Proofs.Engine.Upkeep
import PikeAnalysis.Proofs.Json.Ascii
import PikeAnalysis.Proofs.Json.FieldOrder
import PikeAnalysis.Proofs.Json.Nesting
import PikeAnalysis.Proofs.Json.Numbers
import PikeAnalysis.Proofs.Json.ReadBack
import PikeAnalysis.Proofs.Positions.Identifiers
import PikeAnalysis.Proofs.Positions.Masking
import PikeAnalysis.Proofs.Positions.Tokens
import PikeAnalysis.Proofs.Program.Consistency
import PikeAnalysis.Proofs.Program.Eviction
import PikeAnalysis.Proofs.Program.NameIndex
import PikeAnalysis.Proofs.Resolve.Agreement
import PikeAnalysis.Proofs.Resolve.Ancestry
import PikeAnalysis.Proofs.Resolve.ClassKeys
import PikeAnalysis.Proofs.Resolve.Depth
import PikeAnalysis.Proofs.Resolve.Exploration
import PikeAnalysis.Proofs.Resolve.Outcomes
import PikeAnalysis.Proofs.Resolve.Pervasion
import PikeAnalysis.Proofs.Resolve.QualifiedNames
import PikeAnalysis.Proofs.Resolve.Targets
import PikeAnalysis.Proofs.Resolve.Tiers
import PikeAnalysis.Proofs.Resolve.Typing
import PikeAnalysis.Proofs.Scheduler.Content
import PikeAnalysis.Proofs.Scheduler.Documents
import PikeAnalysis.Proofs.Scheduler.Effects
import PikeAnalysis.Proofs.Scheduler.Informed
import PikeAnalysis.Proofs.Scheduler.Invariant
import PikeAnalysis.Proofs.Scheduler.Operations
import PikeAnalysis.Proofs.Scheduler.Reopening
import PikeAnalysis.Proofs.Scheduler.Timers
import PikeAnalysis.Proofs.Scheduler.Waiters
import PikeAnalysis.Proofs.Shape.Reading
import PikeAnalysis.Proofs.ShortestPrefix
import PikeAnalysis.Proofs.Simulation.Agenda
import PikeAnalysis.Proofs.Simulation.Attendance
import PikeAnalysis.Proofs.Simulation.Books
import PikeAnalysis.Proofs.Simulation.Debounce
import PikeAnalysis.Proofs.Simulation.Events
import PikeAnalysis.Proofs.Simulation.Independence
import PikeAnalysis.Proofs.Simulation.Moves
import PikeAnalysis.Proofs.Simulation.Prospects
import PikeAnalysis.Proofs.Simulation.Slots
import PikeAnalysis.Proofs.Simulation.Tracks
import PikeAnalysis.Proofs.Simulation.Turning
import PikeAnalysis.Proofs.Simulation.Turns
import PikeAnalysis.Proofs.Simulation.Validations
import PikeAnalysis.Proofs.Stdlib.Failures
import PikeAnalysis.Proofs.Stdlib.Limits
import PikeAnalysis.Proofs.Stdlib.Paths
import PikeAnalysis.Proofs.Stdlib.Recency
import PikeAnalysis.Proofs.Symbol.Merging
import PikeAnalysis.Proofs.Symbol.ReadingOrder
import PikeAnalysis.Proofs.Text.Roundtrips
import PikeAnalysis.Proofs.Text.Trimming
import PikeAnalysis.Proofs.Validation.Coherence
import PikeAnalysis.Proofs.Validation.Stores
import PikeAnalysis.Proofs.Validation.Versions
import PikeAnalysis.Proofs.Wire.Idempotence
import PikeAnalysis.Report.Engine
import PikeAnalysis.Report.Symbols
import PikeAnalysis.Resolve.Lookup
import PikeAnalysis.Resolve.Model
import PikeAnalysis.Resolve.Scope
import PikeAnalysis.Resolve.Source
import PikeAnalysis.Scheduler.Live
import PikeAnalysis.Scheduler.Machine
import PikeAnalysis.Shape.Basic
import PikeAnalysis.Shape.Check
import PikeAnalysis.Shape.Literal
import PikeAnalysis.Simulation.Command
import PikeAnalysis.Simulation.Scene
import PikeAnalysis.Simulation.Scheduling
import PikeAnalysis.Simulation.Session
import PikeAnalysis.Simulation.Worker
import PikeAnalysis.Stdlib.Index
import PikeAnalysis.Stdlib.Module
import PikeAnalysis.Symbol.Basic
import PikeAnalysis.Symbol.Merge
import PikeAnalysis.Symbol.Table
import PikeAnalysis.Symbol.TypeName
import PikeAnalysis.Terminal.Table
import PikeAnalysis.Terminal.Wrap
import PikeAnalysis.Text.Character
import PikeAnalysis.Text.Lines
import PikeAnalysis.Text.Printable
import PikeAnalysis.Text.Utf8
import PikeAnalysis.Text.Word
import PikeAnalysis.Validation.Run
import PikeAnalysis.Wire.Model
import PikeAnalysis.Wire.Payload
import PikeAnalysis.Yaml.Reader
import PikeAnalysis.Yaml.Scalar
