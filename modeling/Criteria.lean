import Criteria.Clause.Basic
import Criteria.Clause.Document
import Criteria.Engine.Call
import Criteria.Engine.Delivery
import Criteria.Engine.Evaluation
import Criteria.Engine.Place
import Criteria.Engine.Progress
import Criteria.Engine.Route
import Criteria.Engine.State
import Criteria.Engine.Store
import Criteria.Failure
import Criteria.Json.Basic
import Criteria.Json.Order
import Criteria.Json.Printer
import Criteria.Json.Reader
import Criteria.Json.Text
import Criteria.Message.Placeholder
import Criteria.Message.Template
import Criteria.Number.Double
import Criteria.Number.Integer
import Criteria.Number.Numeral
import Criteria.Number.Rounding
import Criteria.Number.Shortest
import Criteria.Proofs.Call.Completion
import Criteria.Proofs.Call.Recount
import Criteria.Proofs.Call.Report
import Criteria.Proofs.Call.Settlement
import Criteria.Proofs.Call.Verdict
import Criteria.Proofs.Clause.Building
import Criteria.Proofs.Clause.Resolution
import Criteria.Proofs.Clause.Subclause
import Criteria.Proofs.Document.Grammar
import Criteria.Proofs.Document.RoundTrip
import Criteria.Proofs.Engine.Confined
import Criteria.Proofs.Engine.Delivery
import Criteria.Proofs.Engine.Evaluation
import Criteria.Proofs.Engine.Growth
import Criteria.Proofs.Engine.Intake
import Criteria.Proofs.Engine.Sound
import Criteria.Proofs.Engine.Start
import Criteria.Proofs.Error.Decision
import Criteria.Proofs.Error.Instant
import Criteria.Proofs.Error.Mirrored
import Criteria.Proofs.Error.Reached
import Criteria.Proofs.Error.Reported
import Criteria.Proofs.Error.Surfaced
import Criteria.Proofs.Failure.Descendant
import Criteria.Proofs.Failure.Line
import Criteria.Proofs.Future.Abandoned
import Criteria.Proofs.Future.Outcome
import Criteria.Proofs.Future.Replacement
import Criteria.Proofs.Isolation.Backdrop
import Criteria.Proofs.Isolation.Calls
import Criteria.Proofs.Isolation.Return
import Criteria.Proofs.Isolation.Route
import Criteria.Proofs.Isolation.Shadow
import Criteria.Proofs.Isolation.Step
import Criteria.Proofs.Journal.Invocation
import Criteria.Proofs.Journal.Outcome
import Criteria.Proofs.Layout.Change
import Criteria.Proofs.Layout.Opening
import Criteria.Proofs.Layout.Plain
import Criteria.Proofs.Layout.WellFormed
import Criteria.Proofs.Lineage.ByNumber
import Criteria.Proofs.Lineage.Capture
import Criteria.Proofs.Lineage.History
import Criteria.Proofs.Lineage.Termination
import Criteria.Proofs.Message.Disclosure
import Criteria.Proofs.Message.Overlap
import Criteria.Proofs.Message.Segment
import Criteria.Proofs.Message.Token
import Criteria.Proofs.Mirror.Delivery
import Criteria.Proofs.Mirror.Evaluation
import Criteria.Proofs.Mirror.Pairing
import Criteria.Proofs.Nested.Clause
import Criteria.Proofs.Nested.Composition
import Criteria.Proofs.Nested.Formula
import Criteria.Proofs.Nested.Relay
import Criteria.Proofs.Nested.Report
import Criteria.Proofs.Number.Nearest
import Criteria.Proofs.Order.Begun
import Criteria.Proofs.Order.Extent
import Criteria.Proofs.Order.Invoked
import Criteria.Proofs.Order.Ordered
import Criteria.Proofs.Order.Sequence
import Criteria.Proofs.Polarity.Counterpart
import Criteria.Proofs.Polarity.Delivery
import Criteria.Proofs.Polarity.Duality
import Criteria.Proofs.Polarity.Evaluation
import Criteria.Proofs.Polarity.Turned
import Criteria.Proofs.Progress.Account
import Criteria.Proofs.Progress.Evaluated
import Criteria.Proofs.Progress.Record
import Criteria.Proofs.Progress.Rising
import Criteria.Proofs.Progress.Submission
import Criteria.Proofs.Progress.Tapped
import Criteria.Proofs.Progress.Timely
import Criteria.Proofs.Reference.Agreement
import Criteria.Proofs.Reference.Evaluator
import Criteria.Proofs.Reference.Immediate
import Criteria.Proofs.Registry.Entries
import Criteria.Proofs.Registry.History
import Criteria.Proofs.Registry.Log
import Criteria.Proofs.Rule.Acceptance
import Criteria.Proofs.Rule.Candidate
import Criteria.Proofs.Rule.TypeName
import Criteria.Proofs.Run.Advance
import Criteria.Proofs.Run.Call
import Criteria.Proofs.Run.Chronicle
import Criteria.Proofs.Run.Conduct
import Criteria.Proofs.Run.Effect
import Criteria.Proofs.Run.Move
import Criteria.Proofs.Run.Reach
import Criteria.Proofs.Run.Session
import Criteria.Proofs.Run.Step
import Criteria.Proofs.Settle.Agreement
import Criteria.Proofs.Settle.First
import Criteria.Proofs.Settle.InCall
import Criteria.Proofs.Settle.Lasting
import Criteria.Proofs.Settle.Reacting
import Criteria.Proofs.Settle.Related
import Criteria.Proofs.Settle.Sparing
import Criteria.Proofs.Snapshot.Capture
import Criteria.Proofs.Snapshot.Change
import Criteria.Proofs.Snapshot.Definition
import Criteria.Proofs.Snapshot.Moment
import Criteria.Proofs.Snapshot.Template
import Criteria.Proofs.Snapshot.Use
import Criteria.Proofs.Snapshot.Wordless
import Criteria.Proofs.Value.Equality
import Criteria.Proofs.Value.Integers
import Criteria.Proofs.Value.Numeral
import Criteria.Proofs.Value.Order
import Criteria.Registry
import Criteria.Rule.Body
import Criteria.Rule.Standard
import Criteria.Session.Command
import Criteria.Session.Exec
import Criteria.Session.Inspect
import Criteria.Session.Script
import Criteria.Session.State
import Criteria.Text.CodeTable
import Criteria.Text.Combining
import Criteria.Text.Glyphless
import Criteria.Text.Occurrence
import Criteria.Text.Quoted
import Criteria.Validator
