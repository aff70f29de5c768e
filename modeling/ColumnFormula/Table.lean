import ColumnFormula.Schema
import ColumnFormula.Value

/-!
Tables as lists of named columns. Columns may differ in length; a cell past the end of its column
is nil, and the table has as many rows as its longest column.
-/

set_option autoImplicit false
set_option relaxedAutoImplicit false

namespace ColumnFormula

structure Column where
  name : String
  cells : List Value
  deriving DecidableEq

structure Table where
  columns : List Column
  deriving DecidableEq

namespace Table

def width (table : Table) : Nat := table.columns.length

/-- The length of the longest column. -/
def rowCount (table : Table) : Nat :=
  table.columns.foldr (fun column count ↦ max column.cells.length count) 0

def schema (table : Table) : Schema := .ofNames (table.columns.map Column.name)

/-- Appends a column; its position is the old width. -/
def pushColumn (table : Table) (column : Column) : Table := ⟨table.columns ++ [column]⟩

/-- The first column with the given name. -/
def columnByName? (table : Table) (name : String) : Option Column :=
  (table.schema.lookup name).bind fun index ↦ table.columns[index]?

/-- One row; cells that its columns do not hold are nil. -/
def row (table : Table) (index : Nat) : Row :=
  fun column ↦ ((table.columns[column]?).bind fun c ↦ c.cells[index]?).getD .nil

/-- Replaces the cells of a column. -/
def setCells (table : Table) (index : Nat) (cells : List Value) : Table :=
  ⟨table.columns.modify index fun column ↦ { column with cells := cells }⟩

end Table

end ColumnFormula
