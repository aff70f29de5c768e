import ColumnFormula.Main
import ColumnFormula.Proofs.Expr.Grammar
import ColumnFormula.Proofs.Expr.Height
import ColumnFormula.Proofs.Expr.ReaderSteps
import ColumnFormula.Proofs.Expr.Soundness
import ColumnFormula.Proofs.Expr.Completeness
import ColumnFormula.Proofs.Expr.Recognition
import ColumnFormula.Proofs.Number.Magnitude
import ColumnFormula.Proofs.Number.Reading
import ColumnFormula.Proofs.Source.Tokens
import ColumnFormula.Proofs.Token.Cutting
import ColumnFormula.Proofs.Source.Neighbours
import ColumnFormula.Proofs.Source.Layout
import ColumnFormula.Proofs.Source.Script
import ColumnFormula.Proofs.Table.Rows
import ColumnFormula.Proofs.Table.Programs
import ColumnFormula.Proofs.Table.Calls
import ColumnFormula.Proofs.Table.Refinement
import ColumnFormula.Proofs.Table.Atomicity
import ColumnFormula.Proofs.Evaluation.Columns
import ColumnFormula.Proofs.Evaluation.Safety
import ColumnFormula.Proofs.Table.CallStatements
import ColumnFormula.Proofs.Table.Names
import ColumnFormula.Proofs.Table.Runs
import ColumnFormula.Proofs.Token.Reading
import ColumnFormula.Proofs.Source.Padding
import ColumnFormula.Proofs.Source.Separation
import ColumnFormula.Proofs.Table.NewColumn
import ColumnFormula.Proofs.Table.RowOrder
import ColumnFormula.Proofs.Dataset.Import
import ColumnFormula.Proofs.Dataset.RoundTrip
import ColumnFormula.Proofs.Dataset.ResultRows
import ColumnFormula.Proofs.Source.Compiled
import ColumnFormula.Proofs.Table.Environment
import ColumnFormula.Proofs.Binding.NameLists
import ColumnFormula.Proofs.Binding.Letters
import ColumnFormula.Proofs.Binding.LetterNumerals
import ColumnFormula.Proofs.Source.Limits
import ColumnFormula.Proofs.Number.DecimalForm
import ColumnFormula.Proofs.Number.RoundTo
import ColumnFormula.Proofs.Number.RoundToTens
import ColumnFormula.Proofs.Evaluation.Chains
import ColumnFormula.Proofs.Value.Equality
import ColumnFormula.Proofs.Value.Literals
import ColumnFormula.Proofs.Value.NilOperands
import ColumnFormula.Proofs.Expr.ReaderMoves
import ColumnFormula.Proofs.Expr.ParserCalls
import ColumnFormula.Proofs.Expr.Walk
import ColumnFormula.Proofs.Source.EntryPoints
import ColumnFormula.Proofs.Expr.ReaderLocality
import ColumnFormula.Proofs.Expr.Continuations
import ColumnFormula.Proofs.Token.Partition
import ColumnFormula.Proofs.Source.Pieces
import ColumnFormula.Proofs.Source.Spacing
import ColumnFormula.Proofs.Binding.Resolution
import ColumnFormula.Proofs.Binding.Rebinding
import ColumnFormula.Proofs.Dataset.Acceptance
import ColumnFormula.Proofs.Evaluation.OperatorForms
