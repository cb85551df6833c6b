import FilterQuery.Calendar.Date
import FilterQuery.Calendar.DateTime
import FilterQuery.Calendar.Fixed
import FilterQuery.Calendar.Iso
import FilterQuery.Command.Options
import FilterQuery.Command.Run
import FilterQuery.Encoding.ClauseSet
import FilterQuery.Encoding.Condition
import FilterQuery.Encoding.Folded
import FilterQuery.Encoding.Literal
import FilterQuery.Fold.Flat
import FilterQuery.Fold.Folded
import FilterQuery.Fold.Tree
import FilterQuery.Json.Decode
import FilterQuery.Json.Pretty
import FilterQuery.Json.Record
import FilterQuery.Json.Value
import FilterQuery.Main
import FilterQuery.Proofs.Composition.Chains
import FilterQuery.Proofs.Composition.Clauses
import FilterQuery.Proofs.Fold.Grouping
import FilterQuery.Proofs.Fold.Leaves
import FilterQuery.Proofs.Fold.Operands
import FilterQuery.Proofs.Fold.Parsed
import FilterQuery.Proofs.Fold.Values
import FilterQuery.Proofs.Layout.Calendar
import FilterQuery.Proofs.Layout.Chain
import FilterQuery.Proofs.Layout.ClauseSet
import FilterQuery.Proofs.Layout.Decimal
import FilterQuery.Proofs.Layout.Literal
import FilterQuery.Proofs.Layout.Words
import FilterQuery.Proofs.Reading.Acceptance
import FilterQuery.Proofs.Reading.Answers
import FilterQuery.Proofs.Reading.Calls
import FilterQuery.Proofs.Reading.Chains
import FilterQuery.Proofs.Reading.Clauses
import FilterQuery.Proofs.Reading.Depth
import FilterQuery.Proofs.Reading.Extension
import FilterQuery.Proofs.Reading.Keywords
import FilterQuery.Proofs.Reading.Leaves
import FilterQuery.Proofs.Reading.Literals
import FilterQuery.Proofs.Reading.Moves
import FilterQuery.Proofs.Reading.Refusals
import FilterQuery.Proofs.Reading.Tokens
import FilterQuery.Proofs.Refusal.Calls
import FilterQuery.Proofs.Refusal.Chains
import FilterQuery.Proofs.Refusal.Clauses
import FilterQuery.Proofs.Refusal.Literals
import FilterQuery.Proofs.Refusal.Places
import FilterQuery.Proofs.Refusal.QuotedBodies
import FilterQuery.Proofs.RoundTrip.Chain
import FilterQuery.Proofs.RoundTrip.ClauseSet
import FilterQuery.Proofs.RoundTrip.Filter
import FilterQuery.Proofs.RoundTrip.Literal
import FilterQuery.Proofs.Simulation.Agreement
import FilterQuery.Proofs.Simulation.Limits
import FilterQuery.Proofs.Simulation.Nesting
import FilterQuery.Proofs.Simulation.Reuse
import FilterQuery.Proofs.Simulation.Rules
import FilterQuery.Proofs.Simulation.Spacing
import FilterQuery.Query.ClauseSet
import FilterQuery.Query.Condition
import FilterQuery.Query.Dialect
import FilterQuery.Query.Keyword
import FilterQuery.Query.Operator
import FilterQuery.Reading.ChainRule
import FilterQuery.Reading.ClauseRule
import FilterQuery.Reading.Cursor
import FilterQuery.Reading.LiteralRule
import FilterQuery.Reading.ParseError
import FilterQuery.Reading.Parser
import FilterQuery.Reading.Rule
import FilterQuery.Reading.Token
import FilterQuery.Report.Render
import FilterQuery.Report.Sql
import FilterQuery.Text.Chars
import FilterQuery.Text.Decimal
import FilterQuery.Text.Span
import FilterQuery.Value.Literal
import FilterQuery.Value.Timestamp
import FilterQuery.Proofs.Encoding.Calendar
import FilterQuery.Proofs.Encoding.Decoders
import FilterQuery.Proofs.Encoding.Literals
import FilterQuery.Proofs.Encoding.Conditions
import FilterQuery.Proofs.Encoding.Serialized
import FilterQuery.Proofs.Encoding.Builders
import FilterQuery.Proofs.Encoding.Timestamps
import FilterQuery.Proofs.Report.Parameters
import FilterQuery.Proofs.Report.Filled
import FilterQuery.Proofs.Reading.WordEnds
import FilterQuery.Proofs.Composition.Misplaced
import FilterQuery.Proofs.Command.Input
import FilterQuery.Proofs.Fold.Spine
import FilterQuery.Proofs.Report.FlatText
import FilterQuery.Proofs.Report.Lines
import FilterQuery.Proofs.Cursor.Scans
import FilterQuery.Proofs.Cursor.Runs
import FilterQuery.Proofs.Cursor.Words
import FilterQuery.Proofs.Cursor.Numbers
