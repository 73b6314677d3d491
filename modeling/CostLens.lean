import CostLens.Analysis.Document
import CostLens.Analysis.Explanation
import CostLens.Analysis.Growth
import CostLens.Analysis.Idiom
import CostLens.Analysis.Loop
import CostLens.Analysis.Recursion
import CostLens.Analysis.Sanitized
import CostLens.Analysis.Structure
import CostLens.Analysis.Verdict
import CostLens.Command.Arguments
import CostLens.Command.Execute
import CostLens.Command.Options
import CostLens.Command.Reach
import CostLens.Document
import CostLens.Failure
import CostLens.Files.FileSystem
import CostLens.Files.Path
import CostLens.Json.Basic
import CostLens.Json.File
import CostLens.Json.Kind
import CostLens.Json.Reader
import CostLens.Json.Shown
import CostLens.Json.Writer
import CostLens.Log.Basic
import CostLens.Log.State
import CostLens.Main
import CostLens.Number.Binary64
import CostLens.Number.Integer
import CostLens.Number.Shortest
import CostLens.Proofs.Text.Digit
import CostLens.Proofs.Text.Utf8
import CostLens.Report.Basic
import CostLens.Report.Lens
import CostLens.Report.Markup
import CostLens.Report.Render
import CostLens.Report.Views
import CostLens.Request
import CostLens.Run
import CostLens.Settings
import CostLens.Source.Block
import CostLens.Source.Candidate
import CostLens.Source.Declaration
import CostLens.Source.Family
import CostLens.Source.Language
import CostLens.Store.Basic
import CostLens.Store.Record
import CostLens.Text.Basic
import CostLens.Text.Blank
import CostLens.Text.Digit
import CostLens.Text.Lines
import CostLens.Text.Printable
import CostLens.Text.Quoted
import CostLens.Text.Replace
import CostLens.Text.Test
import CostLens.Text.Utf8
import CostLens.Text.Word
import CostLens.Time.Calendar
import CostLens.Time.Display
import CostLens.Time.Moment
import CostLens.Time.Reader
import CostLens.Proofs.Json.Members
import CostLens.Proofs.Json.RoundTrip
import CostLens.Proofs.Json.Saving
import CostLens.Proofs.Files.Frame
import CostLens.Proofs.Run.Basic
import CostLens.Proofs.Run.Frame
import CostLens.Proofs.Run.Reading
import CostLens.Proofs.Run.Footprint
import CostLens.Proofs.Files.Names
import CostLens.Proofs.Store.History
import CostLens.Proofs.Json.Bounds
import CostLens.Proofs.Json.Limits
import CostLens.Proofs.Json.Readable
import CostLens.Proofs.Store.Snapshot
import CostLens.Proofs.Store.Faults
import CostLens.Proofs.Store.Saving
import CostLens.Proofs.Store.Session
import CostLens.Proofs.Store.Listing
import CostLens.Proofs.Source.Balance
import CostLens.Proofs.Source.Entry
import CostLens.Proofs.Source.Locality
import CostLens.Proofs.Source.Declaration
import CostLens.Proofs.Source.Mixed
import CostLens.Proofs.Source.Scan
import CostLens.Proofs.Source.Selection
import CostLens.Proofs.Command.Settings
import CostLens.Proofs.Command.Options
import CostLens.Proofs.Source.Targets
import CostLens.Proofs.Command.Analyze
import CostLens.Proofs.Command.Showing
import CostLens.Proofs.Command.Requests
import CostLens.Proofs.Command.Verdicts
import CostLens.Proofs.Command.Repetition
import CostLens.Proofs.Command.Footprint
import CostLens.Proofs.Command.Writing
import CostLens.Proofs.Source.Nesting
import CostLens.Proofs.Text.Replace
import CostLens.Proofs.Analysis.Passes
import CostLens.Proofs.Analysis.Literal
import CostLens.Proofs.Analysis.Tokens
import CostLens.Proofs.Analysis.Depth
import CostLens.Proofs.Analysis.Enclosing
import CostLens.Proofs.Analysis.Recursion
import CostLens.Proofs.Store.Sharing
import CostLens.Proofs.Source.Closing
import CostLens.Proofs.Source.BraceEnd
import CostLens.Proofs.Source.IndentEnd
import CostLens.Proofs.Source.Method
import CostLens.Proofs.Analysis.Alignment
import CostLens.Proofs.Analysis.Explanation
import CostLens.Proofs.Analysis.Verdict
import CostLens.Proofs.Text.Phrase
import CostLens.Proofs.Text.Test
import CostLens.Proofs.Text.Word
import CostLens.Proofs.Settings.Placing
import CostLens.Proofs.Settings.Resolving
import CostLens.Proofs.Settings.Precedence
import CostLens.Proofs.Settings.Refusal
import CostLens.Proofs.Settings.Argument
import CostLens.Proofs.Settings.Files
import CostLens.Proofs.Files.Denoting
import CostLens.Proofs.Files.Identity
import CostLens.Proofs.Time.Calendar
import CostLens.Proofs.Time.Reading
import CostLens.Proofs.Time.Display
import CostLens.Proofs.Store.Capture
import CostLens.Proofs.Log.Scopes
import CostLens.Proofs.Analysis.Growth
import CostLens.Proofs.Files.Refusal
import CostLens.Proofs.Store.Unsaved
