import ColumnFormula.Program
import ColumnFormula.Script
import ColumnFormula.Table

/-!
Formulas and scripts on tables. A formula is evaluated for every row and its values become a new
column; a script is run for every row and its values are written column by column afterwards. Both
change a table in place (`TableEdit`): a call that fails keeps what it has written until then.
Rows are evaluated one after the other until one fails, or all of them first and their outcomes
collected in order of the rows; both report the first failing row. The columns of a table are in
memory and so are the statements, so an overlay over one of its rows can always be allocated
(`Program.evaluateRow_of_inMemory`) and no call panics.
-/

set_option autoImplicit false
set_option relaxedAutoImplicit false

namespace ColumnFormula

/-- What to do with a row that fails: give up, or write nil and go on. -/
inductive ErrorPolicy where
  | abort
  | nil
  deriving DecidableEq, Repr

/-- How to run over the rows of a table. Rows are evaluated all together only from
`minParallelRows` rows on. -/
structure EvalOptions where
  parallel : Bool
  minParallelRows : Nat
  onError : ErrorPolicy
  deriving DecidableEq, Repr

def EvalOptions.standard : EvalOptions := ⟨true, 1024, .abort⟩

/-- Why a formula or a script could not be run on a table. -/
inductive TableError where
  | compile (error : CompileError)
  | bind (error : BindError)
  | row (index : Nat) (error : EvalError)
  | duplicateColumn (name : String)
  deriving DecidableEq

def TableError.message : TableError → String
  | .compile error => error.message
  | .bind error => s!"Bind error: {error.message}"
  | .row index error => s!"Row {index}: {error.message}"
  | .duplicateColumn name => s!"Column '{name}' already exists"

/-- The result that stands for a row under a policy. -/
def ErrorPolicy.settle {α : Type} (policy : ErrorPolicy) (fallback : α) (index : Nat) :
    Except EvalError α → Except TableError α
  | .ok a => .ok a
  | .error error =>
    match policy with
    | .abort => .error (.row index error)
    | .nil => .ok fallback

/-- The results of several rows in order, or the first error among them. -/
def collectOutcomes {α : Type} : List (Except TableError α) → Except TableError (List α)
  | [] => .ok []
  | outcome :: rest => do
    let first ← outcome
    let others ← collectOutcomes rest
    .ok (first :: others)

/-- Evaluates the given rows one after the other and stops at the first error. -/
def evaluateInOrder {α : Type} (evaluate : Nat → Except TableError α) :
    List Nat → Except TableError (List α)
  | [] => .ok []
  | row :: rest => do
    let first ← evaluate row
    let others ← evaluateInOrder evaluate rest
    .ok (first :: others)

namespace Table

/-- Evaluates every row of a table under the given options. -/
def runRows {α : Type} (table : Table) (options : EvalOptions) (evaluate : Row → Except EvalError α)
    (fallback : α) : Except TableError (List α) :=
  let evaluateOne := fun row ↦ options.onError.settle fallback row (evaluate (table.row row))
  let rows := List.range table.rowCount
  if options.parallel && options.minParallelRows ≤ table.rowCount then
    collectOutcomes (rows.map evaluateOne)
  else evaluateInOrder evaluateOne rows

/-- Writes the cells that a statement has produced. -/
def write (table : Table) (statement : Statement BoundColumn) (cells : List Value) : Table :=
  match statement with
  | .expression _ => table
  | .assign target _ => table.setCells target.index cells
  | .newColumn name _ => table.pushColumn ⟨name, cells⟩

end Table

/-! ### Changes in place -/

/-- A change of a table in place. A failure leaves the table as it is at that point. -/
abbrev TableEdit := EStateM TableError Table

namespace TableEdit

/-- A step that reads and writes no table. -/
def ofExcept {α : Type} : Except TableError α → TableEdit α
  | .ok a => pure a
  | .error error => throw error

/-- Appends a column that holds the value of a bare expression for every row; gives its
position. -/
def addCalculatedColumn (name formula : String) (options : EvalOptions) : TableEdit Nat := do
  let table ← get
  if (table.schema.lookup name).isSome then throw (.duplicateColumn name)
  else
    let e ← ofExcept ((compileExpression formula).mapError fun error ↦ .compile (.formula error))
    let bound ← ofExcept ((e.bind table.schema).mapError .bind)
    let cells ← ofExcept (table.runRows options bound.eval .nil)
    modify (·.pushColumn ⟨name, cells⟩)
    return table.width

/-- Writes the columns of statements in order; the first statement's value is at place `k` of each
row's values. -/
def writeAll (outputs : List (List Value)) (k : Nat) : List (Statement BoundColumn) → TableEdit Unit
  | [] => pure ()
  | statement :: rest => do
    modify (·.write statement (outputs.map fun values ↦ (values[k]?).getD .nil))
    writeAll outputs (k + 1) rest

/-- Runs a script on every row and writes its columns. -/
def executeScript (script : String) (options : EvalOptions) : TableEdit Unit := do
  let table ← get
  let statements ← ofExcept ((compileScript script).mapError .compile)
  let program ← ofExcept ((Program.bind table.schema statements).mapError .bind)
  let fallback := List.replicate program.statements.length Value.nil
  let outputs ← ofExcept (table.runRows options program.runRow fallback)
  writeAll outputs 0 program.statements

/-- The table behind a change that succeeds. -/
def result {α : Type} (edit : TableEdit α) (table : Table) : Except TableError Table :=
  match edit table with
  | .ok _ after => .ok after
  | .error error _ => .error error

end TableEdit

namespace Table

/-- The table with one more column, which holds the value of a bare expression for every row. -/
def addCalculatedColumn (table : Table) (name formula : String) (options : EvalOptions) :
    Except TableError Table :=
  (TableEdit.addCalculatedColumn name formula options).result table

/-- The table after a script has run on every row. -/
def executeScript (table : Table) (script : String) (options : EvalOptions) :
    Except TableError Table :=
  (TableEdit.executeScript script options).result table

end Table

end ColumnFormula
