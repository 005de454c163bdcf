import WorkflowEngine.CommandLine.Arguments
import WorkflowEngine.CommandLine.Command
import WorkflowEngine.CommandLine.Execution
import WorkflowEngine.CommandLine.Report
import WorkflowEngine.Config.Basic
import WorkflowEngine.Config.Loading
import WorkflowEngine.Config.Path
import WorkflowEngine.Content
import WorkflowEngine.ContentPipeline
import WorkflowEngine.Decimal.Binary64
import WorkflowEngine.Decimal.Layout
import WorkflowEngine.Decimal.Reading
import WorkflowEngine.Decimal.Shortest
import WorkflowEngine.Definition.Attempt
import WorkflowEngine.Definition.Callback
import WorkflowEngine.Definition.Expression
import WorkflowEngine.Definition.Node
import WorkflowEngine.Definition.Workflow
import WorkflowEngine.Engine.Basic
import WorkflowEngine.Engine.Journal
import WorkflowEngine.Event.Arrangement
import WorkflowEngine.Event.Basic
import WorkflowEngine.Event.Bus
import WorkflowEngine.Executor.Basic
import WorkflowEngine.Executor.Ready
import WorkflowEngine.Fault
import WorkflowEngine.Fiber.Basic
import WorkflowEngine.Fiber.Polling
import WorkflowEngine.Host
import WorkflowEngine.Ident
import WorkflowEngine.Json.Basic
import WorkflowEngine.Json.Printer
import WorkflowEngine.Json.Reader
import WorkflowEngine.Json.Shape
import WorkflowEngine.KeyMap
import WorkflowEngine.Main
import WorkflowEngine.Media
import WorkflowEngine.Node.Basic
import WorkflowEngine.Node.Execution
import WorkflowEngine.Node.Iteration
import WorkflowEngine.Node.Join
import WorkflowEngine.Node.Validation
import WorkflowEngine.Pool
import WorkflowEngine.Proofs.Event.Arrangement
import WorkflowEngine.Proofs.Event.Followers
import WorkflowEngine.Proofs.Event.Tales
import WorkflowEngine.Proofs.Event.Tellings
import WorkflowEngine.Proofs.Event.Ways
import WorkflowEngine.Proofs.Fiber.Accounts
import WorkflowEngine.Proofs.Fiber.Evolutions
import WorkflowEngine.Proofs.Fiber.Moves
import WorkflowEngine.Proofs.Fiber.Signals
import WorkflowEngine.Proofs.Fiber.Strides
import WorkflowEngine.Proofs.Fiber.Turns
import WorkflowEngine.Proofs.Host.Readers
import WorkflowEngine.Proofs.Host.Rounds
import WorkflowEngine.Proofs.Ident
import WorkflowEngine.Proofs.Interleaving
import WorkflowEngine.Proofs.Json.Documents
import WorkflowEngine.Proofs.Json.Numbers
import WorkflowEngine.Proofs.Json.Numerals
import WorkflowEngine.Proofs.Json.Strings
import WorkflowEngine.Proofs.Node.Adequacy
import WorkflowEngine.Proofs.Node.Cancellation
import WorkflowEngine.Proofs.Node.Confined
import WorkflowEngine.Proofs.Node.Culprits
import WorkflowEngine.Proofs.Node.Faults
import WorkflowEngine.Proofs.Node.Halting
import WorkflowEngine.Proofs.Node.Independence
import WorkflowEngine.Proofs.Node.Joining
import WorkflowEngine.Proofs.Node.Liveliness
import WorkflowEngine.Proofs.Node.Media
import WorkflowEngine.Proofs.Node.Narration
import WorkflowEngine.Proofs.Node.Order
import WorkflowEngine.Proofs.Node.Places
import WorkflowEngine.Proofs.Node.Reckoned
import WorkflowEngine.Proofs.Node.Reckoning
import WorkflowEngine.Proofs.Node.Regrouping
import WorkflowEngine.Proofs.Node.Results
import WorkflowEngine.Proofs.Node.Scopes
import WorkflowEngine.Proofs.Node.Sights
import WorkflowEngine.Proofs.Node.Tales
import WorkflowEngine.Proofs.Node.Untimed
import WorkflowEngine.Proofs.Node.Visits
import WorkflowEngine.Proofs.Run.Alike
import WorkflowEngine.Proofs.Run.Conduct
import WorkflowEngine.Proofs.Run.Confined
import WorkflowEngine.Proofs.Run.Elapsing
import WorkflowEngine.Proofs.Run.Faults
import WorkflowEngine.Proofs.Run.Liveliness
import WorkflowEngine.Proofs.Run.Realms
import WorkflowEngine.Proofs.Run.Reckoning
import WorkflowEngine.Proofs.Run.Scenes
import WorkflowEngine.Proofs.Run.Tasks
import WorkflowEngine.Proofs.Run.Yields
import WorkflowEngine.Proofs.Session.Announced
import WorkflowEngine.Proofs.Session.Deeds
import WorkflowEngine.Proofs.Session.Effects
import WorkflowEngine.Proofs.Session.History
import WorkflowEngine.Proofs.Session.Isolation
import WorkflowEngine.Proofs.Session.Ledgers
import WorkflowEngine.Proofs.Session.Marks
import WorkflowEngine.Proofs.Session.Memory
import WorkflowEngine.Proofs.Session.Merge
import WorkflowEngine.Proofs.Session.Overlap
import WorkflowEngine.Proofs.Session.Points
import WorkflowEngine.Proofs.Session.Records
import WorkflowEngine.Proofs.Session.Reopening
import WorkflowEngine.Proofs.Session.Standing
import WorkflowEngine.Proofs.Session.Tables
import WorkflowEngine.Proofs.Session.Walls
import WorkflowEngine.Proofs.Step.Calls
import WorkflowEngine.Proofs.Store.Agreement
import WorkflowEngine.Proofs.Store.Contents
import WorkflowEngine.Proofs.Store.Keeping
import WorkflowEngine.Proofs.Store.Records
import WorkflowEngine.Proofs.Store.Statuses
import WorkflowEngine.Proofs.Store.Writing
import WorkflowEngine.Proofs.Text.Digits
import WorkflowEngine.Proofs.Time.Calendar
import WorkflowEngine.Proofs.Time.Order
import WorkflowEngine.Proofs.Time.Texts
import WorkflowEngine.Proofs.Wire.Documents
import WorkflowEngine.Proofs.Wire.Fields
import WorkflowEngine.Proofs.Wire.Formats
import WorkflowEngine.Proofs.Wire.Runs
import WorkflowEngine.Proofs.Wire.Steps
import WorkflowEngine.Proofs.Workflow.Cancellation
import WorkflowEngine.Proofs.Workflow.Chronicles
import WorkflowEngine.Proofs.Workflow.Failures
import WorkflowEngine.Proofs.Workflow.Frames
import WorkflowEngine.Proofs.Workflow.Halting
import WorkflowEngine.Proofs.Workflow.Hosted
import WorkflowEngine.Proofs.Workflow.Liveliness
import WorkflowEngine.Proofs.Workflow.Logs
import WorkflowEngine.Proofs.Workflow.Media
import WorkflowEngine.Proofs.Workflow.Outcomes
import WorkflowEngine.Proofs.Workflow.Passage
import WorkflowEngine.Proofs.Workflow.Readiness
import WorkflowEngine.Proofs.Workflow.Reckoned
import WorkflowEngine.Proofs.Workflow.Refusals
import WorkflowEngine.Proofs.Workflow.Reports
import WorkflowEngine.Proofs.Workflow.Sights
import WorkflowEngine.Proofs.Workflow.Stages
import WorkflowEngine.Proofs.Workflow.Stories
import WorkflowEngine.Proofs.Workflow.Tours
import WorkflowEngine.Proofs.Workflow.Writes
import WorkflowEngine.Run.Basic
import WorkflowEngine.Run.Context
import WorkflowEngine.Session.Record
import WorkflowEngine.Session.State
import WorkflowEngine.Step.Basic
import WorkflowEngine.Step.Execution
import WorkflowEngine.Step.Input
import WorkflowEngine.Step.Output
import WorkflowEngine.Store.Basic
import WorkflowEngine.Store.Files
import WorkflowEngine.Store.Row
import WorkflowEngine.Text.Blank
import WorkflowEngine.Text.Lowercase
import WorkflowEngine.Text.Printable
import WorkflowEngine.Text.Ranges
import WorkflowEngine.Time.Instant
import WorkflowEngine.Time.Reading
import WorkflowEngine.Time.Span
import WorkflowEngine.Toml.Printer
import WorkflowEngine.Toml.Reader
import WorkflowEngine.Toml.Tree
import WorkflowEngine.Wire.Config
import WorkflowEngine.Wire.Event
import WorkflowEngine.Wire.Field
import WorkflowEngine.Wire.Run
import WorkflowEngine.Wire.Step
import WorkflowEngine.Word
import WorkflowEngine.Workflow.Background
import WorkflowEngine.Workflow.Basic
import WorkflowEngine.Workflow.Display
import WorkflowEngine.Workflow.Execution
import WorkflowEngine.Workflow.Session
import WorkflowEngine.Proofs.Node.Origins
import WorkflowEngine.Proofs.Workflow.Responses
import WorkflowEngine.Proofs.Workflow.Metrics
import WorkflowEngine.Proofs.Node.Iterations
import WorkflowEngine.Proofs.Step.Attempts
import WorkflowEngine.Proofs.Workflow.Modes
import WorkflowEngine.Proofs.Node.Parallel
import WorkflowEngine.Proofs.Fiber.Twins
import WorkflowEngine.Proofs.Node.Kinship
import WorkflowEngine.Proofs.Workflow.Grouping
import WorkflowEngine.Proofs.Config.References
import WorkflowEngine.Proofs.Wire.Content
import WorkflowEngine.Proofs.Store.Listing
