import ColumnFormula.Dataset
import ColumnFormula.JsonValue.Reader
import ColumnFormula.Table.Calculation

/-!
Checking a formula or running it on a dataset given as JSON text. The derived column is appended, or
the script's columns are written, and the dataset is returned.
-/

set_option autoImplicit false
set_option relaxedAutoImplicit false

namespace ColumnFormula

/-- Why a check failed. -/
inductive CheckError where
  | compile (error : CompileError)
  | table (error : TableError)
  | json
  | dataset (error : DatasetError)
  | noInput

def CheckError.message : CheckError → String
  | .compile error => s!"Compile error: {error.message}"
  | .table error => s!"Evaluation error: {error.message}"
  | .json => "Invalid JSON: the input is not one well-formed document"
  | .dataset error => s!"Invalid dataset: {error.message}"
  | .noInput => "No input provided. Use --input or pipe a JSON dataset to stdin."

/-- A formula or script, the dataset to run it on, and the name of the derived column. -/
structure CheckRequest where
  formula : String
  input : Option String
  name : String
  isScript : Bool
  syntaxOnly : Bool
  options : EvalOptions

/-- The name of the derived column unless another one is asked for. -/
def defaultColumnName : String := "result"

inductive CheckResult where
  | syntaxValid
  | dataset (document : JsonValue)

/-- A policy by its name; the case of ASCII letters does not matter. The error is the message. -/
def ErrorPolicy.ofName (name : String) : Except String ErrorPolicy :=
  match String.ofList (name.toList.map Char.toLower) with
  | "abort" => .ok .abort
  | "nil" => .ok .nil
  | other => .error s!"expected 'abort' or 'nil', got '{other}'"

namespace CheckRequest

/-- Compiles the formula or script and forgets the result. -/
def checkSyntax (request : CheckRequest) : Except CompileError Unit :=
  if request.isScript then (compileScript request.formula).map fun _ ↦ ()
  else ((compileExpression request.formula).mapError .formula).map fun _ ↦ ()

/-- Runs the formula or script on a table. -/
def runOn (request : CheckRequest) (table : Table) : Except TableError Table :=
  if request.isScript then table.executeScript request.formula request.options
  else table.addCalculatedColumn request.name request.formula request.options

/-- The result of a check. -/
def execute (request : CheckRequest) : Except CheckError CheckResult :=
  if request.syntaxOnly then
    match request.checkSyntax with
    | .error error => .error (.compile error)
    | .ok _ => .ok .syntaxValid
  else
    match request.input with
    | none => .error .noInput
    | some text =>
      match JsonValue.parse? text with
      | none => .error .json
      | some document => do
        let table ← (Table.ofJson document).mapError .dataset
        let result ← (request.runOn table).mapError .table
        .ok (.dataset result.toJson)

end CheckRequest

end ColumnFormula
