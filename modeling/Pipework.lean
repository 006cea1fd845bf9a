import Pipework.Atom
import Pipework.Builtin.Atoms
import Pipework.Builtin.Rows
import Pipework.CommandLine.Command
import Pipework.CommandLine.Usage
import Pipework.CommandLine.Words
import Pipework.Config
import Pipework.Context
import Pipework.Declaration
import Pipework.Display
import Pipework.Document.Draft
import Pipework.Document.Form
import Pipework.Document.Json
import Pipework.Document.Yaml
import Pipework.Error
import Pipework.History.Shelf
import Pipework.History.Summary
import Pipework.History.Table
import Pipework.History.Text
import Pipework.Instant
import Pipework.Json.Basic
import Pipework.Json.Fault
import Pipework.Json.Printer
import Pipework.Json.Reader
import Pipework.Json.Record
import Pipework.Main
import Pipework.Number.Decimal
import Pipework.Number.Double
import Pipework.Number.Scaling
import Pipework.Pipeline
import Pipework.Program.Directory
import Pipework.Program.Failure
import Pipework.Program.Inspection
import Pipework.Program.Lookup
import Pipework.Program.Perform
import Pipework.Program.Running
import Pipework.Program.Session
import Pipework.Proofs.Bindings
import Pipework.Proofs.Context
import Pipework.Proofs.Declaration.Arguments
import Pipework.Proofs.Declaration.Binding
import Pipework.Proofs.Declaration.ByName
import Pipework.Proofs.Document.Depth
import Pipework.Proofs.Document.Distinct
import Pipework.Proofs.Document.Ends
import Pipework.Proofs.Document.Json
import Pipework.Proofs.Document.Yaml
import Pipework.Proofs.History.Interchange
import Pipework.Proofs.History.Rows
import Pipework.Proofs.History.Shelf
import Pipework.Proofs.Instant.Calendar
import Pipework.Proofs.Instant.Written
import Pipework.Proofs.Json.Distinct
import Pipework.Proofs.Json.Fields
import Pipework.Proofs.Json.Numbers
import Pipework.Proofs.Json.Printed
import Pipework.Proofs.Json.Reread
import Pipework.Proofs.Number.Numeral
import Pipework.Proofs.Number.Order
import Pipework.Proofs.Number.Rounding
import Pipework.Proofs.Number.Scaling
import Pipework.Proofs.Outcome
import Pipework.Proofs.Program.Actions
import Pipework.Proofs.Program.Conversion
import Pipework.Proofs.Program.Recording
import Pipework.Proofs.Reference
import Pipework.Proofs.Registry
import Pipework.Proofs.Registry.Listing
import Pipework.Proofs.Rows.Calculation
import Pipework.Proofs.Rows.Comparison
import Pipework.Proofs.Rows.Extremes
import Pipework.Proofs.Rows.Filtering
import Pipework.Proofs.Rows.Fusion
import Pipework.Proofs.Rows.Ordering
import Pipework.Proofs.Rows.Range
import Pipework.Proofs.Rows.Renaming
import Pipework.Proofs.Rows.Selecting
import Pipework.Proofs.Rows.Sorted
import Pipework.Proofs.Rows.Sum
import Pipework.Proofs.Rows.Undoing
import Pipework.Proofs.Run.Alike
import Pipework.Proofs.Run.Awaited
import Pipework.Proofs.Run.Calls
import Pipework.Proofs.Run.Composition
import Pipework.Proofs.Run.Data
import Pipework.Proofs.Run.Entries
import Pipework.Proofs.Run.Fold
import Pipework.Proofs.Run.Interleaving
import Pipework.Proofs.Run.Measured
import Pipework.Proofs.Run.Missing
import Pipework.Proofs.Run.Modes
import Pipework.Proofs.Run.Notices
import Pipework.Proofs.Run.Order
import Pipework.Proofs.Run.Passage
import Pipework.Proofs.Run.Records
import Pipework.Proofs.Run.Shaped
import Pipework.Proofs.Run.Simulation
import Pipework.Proofs.Run.Transparent
import Pipework.Proofs.Run.Turns
import Pipework.Proofs.Run.Watched
import Pipework.Proofs.Script.Completeness
import Pipework.Proofs.Script.Cursor
import Pipework.Proofs.Script.Expressible
import Pipework.Proofs.Script.Faithful
import Pipework.Proofs.Script.Following
import Pipework.Proofs.Script.Grammar
import Pipework.Proofs.Script.Layout
import Pipework.Proofs.Script.Lexing
import Pipework.Proofs.Script.Piping
import Pipework.Proofs.Script.Placeless
import Pipework.Proofs.Script.Places
import Pipework.Proofs.Script.Policies
import Pipework.Proofs.Script.Progress
import Pipework.Proofs.Script.Reading
import Pipework.Proofs.Script.RoundTrip
import Pipework.Proofs.Script.Sayable
import Pipework.Proofs.Script.Scanned
import Pipework.Proofs.Script.Scanning
import Pipework.Proofs.Script.Soundness
import Pipework.Proofs.Script.Spelled
import Pipework.Proofs.Script.Tiling
import Pipework.Proofs.Script.Tree
import Pipework.Proofs.Script.Viable
import Pipework.Proofs.Script.Walking
import Pipework.Proofs.Script.Written
import Pipework.Proofs.Sorting
import Pipework.Proofs.Text.Bytes
import Pipework.Proofs.Text.Classes
import Pipework.Proofs.Text.Span
import Pipework.Proofs.Uuid
import Pipework.Proofs.Yaml.Chars
import Pipework.Proofs.Yaml.Distinct
import Pipework.Proofs.Yaml.Ends
import Pipework.Proofs.Yaml.Literal
import Pipework.Proofs.Yaml.Numbers
import Pipework.Proofs.Yaml.Plain
import Pipework.Proofs.Yaml.Printed
import Pipework.Proofs.Yaml.Quoted
import Pipework.Proofs.Yaml.Scanning
import Pipework.Proofs.Yaml.Styles
import Pipework.Proofs.Yaml.Trees
import Pipework.Proofs.Yaml.Values
import Pipework.Reference
import Pipework.Registry
import Pipework.Run.Execute
import Pipework.Run.Hook
import Pipework.Run.Journal
import Pipework.Script.Parse
import Pipework.Script.Print
import Pipework.Script.Scan
import Pipework.Script.Token
import Pipework.Text.Classes
import Pipework.Text.Shown
import Pipework.Uuid
import Pipework.Yaml.Chars
import Pipework.Yaml.Fault
import Pipework.Yaml.Node
import Pipework.Yaml.Plain
import Pipework.Yaml.Printer
import Pipework.Yaml.Record
import Pipework.Yaml.Scalar
import Pipework.Yaml.Scan
import Pipework.Yaml.Tag
import Pipework.Yaml.Token
