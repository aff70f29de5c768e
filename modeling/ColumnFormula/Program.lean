import ColumnFormula.Binding
import ColumnFormula.Evaluation

/-!
Scripts bound to a schema. Each statement is bound to the schema as the statements before it leave
it, so a column made by one statement can be read by the next ones. A program runs on one row at a
time; what a statement writes is laid over the row for the statements behind it. The schema may be
far wider than it has names, but the overlay has room for every column, and when no allocation can
hold it, the run panics.
-/

set_option autoImplicit false
set_option relaxedAutoImplicit false

namespace ColumnFormula

/-- The schema behind a statement: a new column is appended. -/
def Statement.extend {ρ : Type} (schema : Schema) : Statement ρ → Schema
  | .newColumn name _ => schema.push name
  | _ => schema

/-- Whether the statement appends a column. -/
def Statement.isNewColumn {ρ : Type} : Statement ρ → Bool
  | .newColumn .. => true
  | _ => false

/-- Bound statements and the number of columns once all of them have run. -/
structure Program where
  statements : List (Statement BoundColumn)
  width : Nat

/-- Binds statements in order; also gives the schema behind the last one. -/
def bindStatements (schema : Schema) :
    List (Statement Reference) → Except BindError (List (Statement BoundColumn) × Schema)
  | [] => .ok ([], schema)
  | statement :: rest => do
    let first ← statement.bind schema
    let (others, final) ← bindStatements (first.extend schema) rest
    .ok (first :: others, final)

/-- How a run breaks off without a result. -/
inductive Panic where
  | capacityOverflow
  deriving DecidableEq, Repr

def Panic.message : Panic → String
  | .capacityOverflow => "capacity overflow"

/-- A row with values laid over some of its cells. Each cell that there is room for may have one. -/
structure Overlay where
  base : Row
  overrides : List (Option Value)

namespace Overlay

/-- The cells as the statements see them. -/
def row (overlay : Overlay) : Row := fun index ↦
  match overlay.overrides[index]? with
  | some (some value) => value
  | _ => overlay.base index

/-- An overlay with room for the given number of cells and no value over any of them. -/
def blank (base : Row) (width : Nat) : Overlay := ⟨base, List.replicate width none⟩

/-- The most cells that there can be room for: one allocation is less than 2⁶³ bytes, and a cell
takes 24 of them. -/
def maxWidth : Nat := 0x7FFFFFFFFFFFFFFF / 24

/-- Allocates the room for all cells at once. Up to the limit on one allocation, memory is taken to
be there. -/
def allocate (base : Row) (width : Nat) : Except Panic Overlay :=
  if width ≤ maxWidth then .ok (blank base width) else .error .capacityOverflow

/-- Lays a value over a cell. Where there is no room for it, room is made. -/
def set (overlay : Overlay) (index : Nat) (value : Value) : Overlay :=
  let missing := List.replicate (index + 1 - overlay.overrides.length) none
  { overlay with overrides := (overlay.overrides ++ missing).set index (some value) }

end Overlay

namespace Program

/-- Binds a script to a schema. -/
def bind (schema : Schema) (statements : List (Statement Reference)) :
    Except BindError Program := do
  let (bound, final) ← bindStatements schema statements
  .ok ⟨bound, final.width⟩

/-- The number of statements that append a column. -/
def newColumns (program : Program) : Nat := (program.statements.filter (·.isNewColumn)).length

/-- Runs statements over a row; `next` is the position of the next column to be appended. -/
def runStatements (overlay : Overlay) (next : Nat) :
    List (Statement BoundColumn) → Except EvalError (List Value)
  | [] => .ok []
  | statement :: rest => do
    let value ← statement.value.eval overlay.row
    let values ← match statement with
      | .expression _ => runStatements overlay next rest
      | .assign target _ => runStatements (overlay.set target.index value) next rest
      | .newColumn _ _ => runStatements (overlay.set next value) (next + 1) rest
    .ok (value :: values)

/-- The value of each statement over an overlay, or the first error. -/
def runOver (program : Program) (overlay : Overlay) : Except EvalError (List Value) :=
  runStatements overlay (program.width - program.newColumns) program.statements

/-- The value of each statement for a row, or the first error. The overlay is as wide as the program
and is allocated first, so a program that is too wide panics on every row. -/
def evaluateRow (program : Program) (row : Row) : Except Panic (Except EvalError (List Value)) :=
  (Overlay.allocate row program.width).map program.runOver

/-- The value of each statement for a row whose overlay is sure to be allocated. -/
def runRow (program : Program) (row : Row) : Except EvalError (List Value) :=
  program.runOver (.blank row program.width)

end Program

end ColumnFormula
