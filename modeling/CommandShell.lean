import CommandShell.Cancellation.Signals
import CommandShell.Cancellation.Tasks
import CommandShell.Cancellation.Token
import CommandShell.CommandLine
import CommandShell.Decimal.Shortest
import CommandShell.Entries
import CommandShell.Event
import CommandShell.Fault
import CommandShell.Indicators
import CommandShell.Line.Arguments
import CommandShell.Line.Completion
import CommandShell.Line.Number
import CommandShell.Line.Part
import CommandShell.Line.Segment
import CommandShell.Main
import CommandShell.Markup
import CommandShell.Parameter
import CommandShell.Payload
import CommandShell.Process
import CommandShell.Processor.Basic
import CommandShell.Processor.Registry
import CommandShell.Program
import CommandShell.Services
import CommandShell.Settings.Basic
import CommandShell.Settings.File
import CommandShell.Shell.Abort
import CommandShell.Shell.Action
import CommandShell.Shell.Aliasing
import CommandShell.Shell.Builtin
import CommandShell.Shell.Chain
import CommandShell.Shell.Description
import CommandShell.Shell.Dispatch
import CommandShell.Shell.Host
import CommandShell.Shell.Line
import CommandShell.Shell.Pinning
import CommandShell.Shell.Script
import CommandShell.Shell.Session
import CommandShell.Shell.SetUp
import CommandShell.Shell.Start
import CommandShell.Shell.Terminal
import CommandShell.State.Aliases
import CommandShell.State.Bucket
import CommandShell.State.Live
import CommandShell.State.Space
import CommandShell.Stop
import CommandShell.Storage.FileSystem
import CommandShell.Storage.KeyValue
import CommandShell.Storage.Path
import CommandShell.Storage.Stores
import CommandShell.Storage.Utf8
import CommandShell.Text.Blank
import CommandShell.Text.CaseTable
import CommandShell.Text.Casing
import CommandShell.Text.Digit
import CommandShell.Text.Printable
import CommandShell.Text.Quoted
import CommandShell.Text.Truncate
import CommandShell.Value.Basic
import CommandShell.Value.Json.Encoder
import CommandShell.Value.Json.Reader
import CommandShell.Value.Json.Writer
import CommandShell.Value.Text
import CommandShell.Proofs.Chain.Trace
import CommandShell.Proofs.Line.Aborts
import CommandShell.Proofs.Line.Append
import CommandShell.Proofs.Line.Busy
import CommandShell.Proofs.Line.Expression
import CommandShell.Proofs.Line.Segment
import CommandShell.Proofs.Line.ExitCode
import CommandShell.Proofs.Line.HelpRequests
import CommandShell.Proofs.Line.NestedRecord
import CommandShell.Proofs.Line.Piping
import CommandShell.Proofs.Line.Redirects
import CommandShell.Proofs.Processor.Paths
import CommandShell.Proofs.Processor.Tree
import CommandShell.Proofs.Registry.Names
import CommandShell.Proofs.Registry.Originals
import CommandShell.Proofs.Registry.Roots
import CommandShell.Proofs.Registry.Sealing
import CommandShell.Proofs.Line.Cutting
import CommandShell.Proofs.Line.RawSegments
import CommandShell.Proofs.Line.Words
import CommandShell.Proofs.Line.Numeral
import CommandShell.Proofs.Line.Writing
import CommandShell.Proofs.Line.Admission
import CommandShell.Proofs.Line.Moves
import CommandShell.Proofs.Line.Exits
import CommandShell.Proofs.Line.HandlerCalls
import CommandShell.Proofs.Line.FreeText
import CommandShell.Proofs.Line.Descriptions
import CommandShell.Proofs.Line.Confinement
import CommandShell.Proofs.Storage.Contents
import CommandShell.Proofs.Congruence.Following
import CommandShell.Proofs.Line.Appending
import CommandShell.Proofs.Entries
import CommandShell.Proofs.State.Changes
import CommandShell.Proofs.State.Survival
import CommandShell.Proofs.State.Privacy
import CommandShell.Proofs.Registry.Unwinding
import CommandShell.Proofs.Registry.Refusal
import CommandShell.Proofs.Line.Substitutions
import CommandShell.Proofs.Line.AliasText
import CommandShell.Proofs.Processor.Lookup
import CommandShell.Proofs.Line.Binding
import CommandShell.Proofs.State.AliasUpdates
import CommandShell.Proofs.Line.AliasCommands
import CommandShell.Proofs.Line.AliasTargets
import CommandShell.Proofs.State.Snapshots
import CommandShell.Proofs.State.History
import CommandShell.Proofs.State.Rounds
import CommandShell.Proofs.Line.QuotedText
import CommandShell.Proofs.Line.CommandList
import CommandShell.Proofs.Line.HelpPages
import CommandShell.Proofs.State.Booting
import CommandShell.Proofs.Decimal.Arithmetic
import CommandShell.Proofs.Decimal.Fields
import CommandShell.Proofs.Decimal.Reading
import CommandShell.Proofs.Decimal.Shortest
import CommandShell.Proofs.Value.FloatText
import CommandShell.Proofs.Value.Scalars
import CommandShell.Proofs.Value.Strings
import CommandShell.Proofs.Storage.ReadBack
import CommandShell.Proofs.Storage.Refinement
import CommandShell.Proofs.Line.Completion
import CommandShell.Proofs.Cancellation.Calls
import CommandShell.Proofs.Interaction
import CommandShell.Proofs.Value.Limits
import CommandShell.Proofs.Settings.Overrides
import CommandShell.Proofs.Settings.Loading
