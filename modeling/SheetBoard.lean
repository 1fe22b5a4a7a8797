import SheetBoard.Association
import SheetBoard.Calendar.Date
import SheetBoard.Calendar.Read
import SheetBoard.Cell
import SheetBoard.Command.Argument
import SheetBoard.Command.Basic
import SheetBoard.Command.Run
import SheetBoard.Condition
import SheetBoard.Criterion
import SheetBoard.Dashboard.Board
import SheetBoard.Dashboard.Decode
import SheetBoard.Dashboard.Document
import SheetBoard.Dashboard.Load
import SheetBoard.Dashboard.Selector
import SheetBoard.Dashboard.Spec
import SheetBoard.Delimited.Records
import SheetBoard.Delimited.Table
import SheetBoard.Derived
import SheetBoard.Format.Kpi
import SheetBoard.Format.Text
import SheetBoard.Formula.Call
import SheetBoard.Formula.FunctionTable
import SheetBoard.Formula.Growth
import SheetBoard.Formula.Literal
import SheetBoard.Formula.Reference
import SheetBoard.Formula.Replace
import SheetBoard.Formula.Script
import SheetBoard.Formula.Statement
import SheetBoard.Json.Basic
import SheetBoard.Json.Cell
import SheetBoard.Json.Numeral
import SheetBoard.Json.Read
import SheetBoard.Json.Units
import SheetBoard.Letters
import SheetBoard.Main
import SheetBoard.Number.Decimal
import SheetBoard.Number.Exact
import SheetBoard.Number.Layout
import SheetBoard.Number.Power
import SheetBoard.Number.Read
import SheetBoard.Number.Rounded
import SheetBoard.Proofs.Formula.Alike
import SheetBoard.Proofs.Formula.Calls
import SheetBoard.Proofs.Formula.Growth
import SheetBoard.Proofs.Formula.Name
import SheetBoard.Proofs.Formula.Nesting
import SheetBoard.Proofs.Formula.Operators
import SheetBoard.Proofs.Formula.Piece
import SheetBoard.Proofs.Formula.Quoting
import SheetBoard.Proofs.Formula.Renaming
import SheetBoard.Proofs.Formula.Replacing
import SheetBoard.Proofs.Formula.Resolving
import SheetBoard.Proofs.Formula.Statements
import SheetBoard.Proofs.Formula.Tree
import SheetBoard.Proofs.Number.Numeral
import SheetBoard.Proofs.Script.Compilation
import SheetBoard.Proofs.Script.Derivation
import SheetBoard.Proofs.Script.Reading
import SheetBoard.Proofs.Script.Rowwise
import SheetBoard.Proofs.Script.Scanning
import SheetBoard.Proofs.Script.Shape
import SheetBoard.Schema
import SheetBoard.Script.Builtin
import SheetBoard.Script.Context
import SheetBoard.Script.Error
import SheetBoard.Script.Eval
import SheetBoard.Script.Expr
import SheetBoard.Script.Library.Math
import SheetBoard.Script.Library.Range
import SheetBoard.Script.Library.Text
import SheetBoard.Script.Library.Time
import SheetBoard.Script.Parser
import SheetBoard.Script.Token
import SheetBoard.Script.Value
import SheetBoard.Table.Basic
import SheetBoard.Table.Document
import SheetBoard.Table.Filter
import SheetBoard.Text.Alphabetic
import SheetBoard.Text.Blank
import SheetBoard.Text.Case
import SheetBoard.Text.Cased
import SheetBoard.Text.Digit
import SheetBoard.Text.Glob
import SheetBoard.Text.Mark
import SheetBoard.Text.Ranges
import SheetBoard.Text.Shown
import SheetBoard.Text.Word
import SheetBoard.Proofs.Schema
import SheetBoard.Proofs.Table.Grid
import SheetBoard.Proofs.Table.Deriving
import SheetBoard.Proofs.Table.Changes
import SheetBoard.Proofs.Delimited.Records
import SheetBoard.Proofs.Delimited.RoundTrip
import SheetBoard.Proofs.Number.Whole
import SheetBoard.Proofs.Formula.Headers
import SheetBoard.Proofs.Formula.Fetching
import SheetBoard.Proofs.Script.References
import SheetBoard.Proofs.Naming
import SheetBoard.Proofs.Script.Precedence
import SheetBoard.Proofs.Script.Rendering
import SheetBoard.Proofs.Number.Rounding
import SheetBoard.Proofs.Number.Shortest
import SheetBoard.Proofs.Number.ReadBack
import SheetBoard.Proofs.Formula.Substituting
import SheetBoard.Proofs.Script.RowReferences
import SheetBoard.Proofs.Script.Faults
import SheetBoard.Proofs.Script.Choices
import SheetBoard.Proofs.Formula.Literals
import SheetBoard.Proofs.Formula.AverageGrowth
import SheetBoard.Proofs.Script.AverageGrowth
import SheetBoard.Proofs.Formula.Passing
import SheetBoard.Proofs.Script.Quotation
import SheetBoard.Proofs.Condition.Counting
import SheetBoard.Proofs.Condition.Reading
import SheetBoard.Proofs.Condition.Printing
import SheetBoard.Proofs.Dashboard.Selecting
import SheetBoard.Proofs.Delimited.Reload
import SheetBoard.Proofs.Formula.Lookalikes
import SheetBoard.Proofs.Script.Lookalikes
import SheetBoard.Proofs.Formula.Balance
import SheetBoard.Proofs.Formula.OperatorRules
import SheetBoard.Proofs.Formula.Rounds
import SheetBoard.Proofs.Formula.Idempotence
import SheetBoard.Proofs.Dashboard.Isolation
import SheetBoard.Proofs.Criterion.Wildcards
import SheetBoard.Proofs.Script.Totals
import SheetBoard.Proofs.Table.Filtering
import SheetBoard.Proofs.Criterion.Comparisons
import SheetBoard.Proofs.Criterion.Places
import SheetBoard.Proofs.Number.Order
import SheetBoard.Proofs.Table.Distinct
import SheetBoard.Proofs.Script.Distinct
import SheetBoard.Proofs.Formula.Lookup
import SheetBoard.Proofs.Script.Lookup
import SheetBoard.Proofs.Letters
import SheetBoard.Proofs.Script.ReadBack
import SheetBoard.Proofs.Number.Integer
import SheetBoard.Proofs.Script.Cutting
import SheetBoard.Proofs.Script.Searching
import SheetBoard.Proofs.Formula.Splitting
import SheetBoard.Proofs.Formula.Occurrences
import SheetBoard.Proofs.Calendar.Reading
import SheetBoard.Proofs.Format.Dates
import SheetBoard.Proofs.Formula.Mapping
import SheetBoard.Proofs.Formula.Matching
import SheetBoard.Proofs.Number.Thousands
import SheetBoard.Proofs.Criterion.Backtracking
import SheetBoard.Proofs.Script.Lexemes
import SheetBoard.Proofs.Script.Brackets
import SheetBoard.Proofs.Script.Progress
