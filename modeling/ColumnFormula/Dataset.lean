import ColumnFormula.JsonValue
import ColumnFormula.Table

/-!
Tables as JSON documents: an object with the list of column names and the list of rows. Import pads
short rows with nil and refuses long ones; a cell that is an array or an object becomes its JSON
text. Export writes every row in full, whole numbers below `2 ^ 53` as integers and numbers that are
not finite as `null`.
-/

set_option autoImplicit false
set_option relaxedAutoImplicit false

namespace ColumnFormula

/-- Why a document is no dataset. Rows are counted from zero. -/
inductive DatasetError where
  | notObject
  | columnsNotArray
  | columnNameNotText (found : JsonValue)
  | rowsNotArray
  | rowNotArray (index : Nat)
  | rowTooLong (index cells columns : Nat)

def DatasetError.message : DatasetError → String
  | .notObject => "expected an object with \"columns\" and \"rows\""
  | .columnsNotArray => "\"columns\" must be an array"
  | .columnNameNotText found => s!"column names must be strings, got {found.compact}"
  | .rowsNotArray => "\"rows\" must be an array"
  | .rowNotArray index => s!"row {index} is not an array"
  | .rowTooLong index cells columns =>
    s!"row {index} has {cells} cells but there are {columns} columns"

namespace Value

/-- The cell that a JSON value stands for. -/
def ofJson : JsonValue → Value
  | .null => .nil
  | .boolean b => .boolean b
  | .integer i => .number (.ofInt i)
  | .number x => .number x
  | .text s => .text s
  | value => .text value.compact

/-- The JSON value of a cell. -/
def toJson : Value → JsonValue
  | .nil => .null
  | .boolean b => .boolean b
  | .number x =>
    if x.isWhole && x.magnitude < 0x20000000000000 then .integer x.toRat.num
    else if x.isFinite then .number x
    else .null
  | .text s => .text s

end Value

/-- The texts of a list of JSON values, or the first value that is no text. -/
def columnNames : List JsonValue → Except DatasetError (List String)
  | [] => .ok []
  | .text name :: rest => (columnNames rest).map (name :: ·)
  | found :: _ => .error (.columnNameNotText found)

/-- The cells of the rows of a document, the first one having the given number; a row may have at
most `width` cells. -/
def rowCells (width : Nat) (index : Nat) : List JsonValue → Except DatasetError (List (List Value))
  | [] => .ok []
  | .array cells :: rest =>
    if width < cells.length then .error (.rowTooLong index cells.length width)
    else (rowCells width (index + 1) rest).map (cells.map Value.ofJson :: ·)
  | _ :: _ => .error (.rowNotArray index)

namespace Table

/-- The table of rows given cell by cell, with a column for each name. -/
def ofRows (names : List String) (rows : List (List Value)) : Table :=
  ⟨names.mapIdx fun index name ↦ ⟨name, rows.map fun cells ↦ (cells[index]?).getD .nil⟩⟩

/-- The table of a document. -/
def ofJson : JsonValue → Except DatasetError Table
  | .object members => do
    let names ← match members.lookup "columns" with
      | some (.array items) => columnNames items
      | _ => .error .columnsNotArray
    let rows ← match members.lookup "rows" with
      | some (.array items) => .ok items
      | none => .ok []
      | some _ => .error .rowsNotArray
    let cells ← rowCells names.length 0 rows
    .ok (ofRows names cells)
  | _ => .error .notObject

/-- The cells of a row in order of the columns. -/
def rowValues (table : Table) (index : Nat) : List Value :=
  table.columns.map fun column ↦ (column.cells[index]?).getD .nil

/-- The document of a table. -/
def toJson (table : Table) : JsonValue :=
  let names := table.columns.map fun column ↦ JsonValue.text column.name
  let rows := (List.range table.rowCount).map fun index ↦
    JsonValue.array ((table.rowValues index).map Value.toJson)
  .object [("columns", .array names), ("rows", .array rows)]

end Table

end ColumnFormula
