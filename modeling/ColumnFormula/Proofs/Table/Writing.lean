import ColumnFormula.Proofs.Binding.NameLists
import ColumnFormula.Table.Calculation

/-!
# Writing columns

What writing the cells of a statement does to a table. A column of as many cells as the table has
rows changes no row count (`rowCount_write`), names change only by appending (`schema_write`), and a
row sees the new cells exactly in the column that was written (`row_setCells`, `row_pushColumn`).
For the columns of a whole script, a column that no statement writes stays as it is
(`columns_writeAll_of_not_written`), and a column that is written several times holds what the last
statement wrote (`cells_writeAll_of_lastWrite`).
-/

set_option autoImplicit false
set_option relaxedAutoImplicit false

namespace ColumnFormula

namespace Table

/-! ### Rows and widths -/

theorem rowCount_le_iff {table : Table} {n : Nat} :
    table.rowCount ≤ n ↔ ∀ column ∈ table.columns, column.cells.length ≤ n := by
  obtain ⟨columns⟩ := table
  induction columns with
  | nil => simp [rowCount]
  | cons column rest ih =>
    simp only [rowCount, List.foldr_cons, List.forall_mem_cons] at ih ⊢
    rw [Nat.max_le, ih]

theorem length_le_rowCount {table : Table} {column : Column} (h : column ∈ table.columns) :
    column.cells.length ≤ table.rowCount :=
  rowCount_le_iff.mp (Nat.le_refl _) column h

/-- The cells of a column are replaced where the table has the column. -/
theorem getElem?_setCells (table : Table) (index : Nat) (cells : List Value) (column : Nat) :
    (table.setCells index cells).columns[column]? =
      if column = index then (table.columns[column]?).map fun c ↦ { c with cells := cells }
      else table.columns[column]? := by
  rw [setCells, List.getElem?_modify]
  by_cases h : column = index
  · simp [h]
  · simp [h, Ne.symm h]

theorem getElem?_pushColumn (table : Table) (new : Column) (column : Nat) :
    (table.pushColumn new).columns[column]? =
      if column = table.width then some new else table.columns[column]? := by
  rw [pushColumn, width]
  by_cases h : column = table.columns.length
  · simp [h]
  · rw [if_neg h]
    by_cases hlt : column < table.columns.length
    · rw [List.getElem?_append_left hlt]
    · rw [List.getElem?_eq_none (by simp; omega), List.getElem?_eq_none (by omega)]

theorem rowCount_setCells {table : Table} {index : Nat} {cells : List Value}
    (h : cells.length = table.rowCount) :
    (table.setCells index cells).rowCount = table.rowCount := by
  apply Nat.le_antisymm
  · refine rowCount_le_iff.mpr fun column hcolumn ↦ ?_
    obtain ⟨place, hplace⟩ := List.mem_iff_getElem?.mp hcolumn
    rw [getElem?_setCells] at hplace
    split at hplace
    · obtain ⟨old, -, rfl⟩ := Option.map_eq_some_iff.mp hplace
      exact Nat.le_of_eq h
    · exact length_le_rowCount (List.mem_of_getElem? hplace)
  · refine rowCount_le_iff.mpr fun column hcolumn ↦ ?_
    obtain ⟨place, hplace⟩ := List.mem_iff_getElem?.mp hcolumn
    have hnew := getElem?_setCells table index cells place
    rw [hplace] at hnew
    by_cases hindex : place = index
    · -- The column that is replaced becomes as long as the longest one was.
      rw [if_pos hindex] at hnew
      calc column.cells.length ≤ table.rowCount := length_le_rowCount hcolumn
        _ = cells.length := h.symm
        _ ≤ (table.setCells index cells).rowCount :=
          length_le_rowCount (List.mem_of_getElem? hnew)
    · rw [if_neg hindex] at hnew
      exact length_le_rowCount (List.mem_of_getElem? hnew)

theorem rowCount_pushColumn {table : Table} {name : String} {cells : List Value}
    (h : cells.length = table.rowCount) :
    (table.pushColumn ⟨name, cells⟩).rowCount = table.rowCount := by
  apply Nat.le_antisymm
  · refine rowCount_le_iff.mpr fun column hcolumn ↦ ?_
    rcases List.mem_append.mp hcolumn with hcolumn | hcolumn
    · exact length_le_rowCount hcolumn
    · obtain rfl := List.mem_singleton.mp hcolumn
      exact Nat.le_of_eq h
  · exact rowCount_le_iff.mpr fun column hcolumn ↦
      length_le_rowCount (List.mem_append_left _ hcolumn)

/-! ### Rows as the columns show them -/

theorem row_setCells {table : Table} {index : Nat} (h : index < table.width) (cells : List Value)
    (row : Nat) : (table.setCells index cells).row row =
      fun column ↦ if column = index then (cells[row]?).getD .nil else table.row row column := by
  funext column
  rw [Table.row, getElem?_setCells]
  by_cases hcolumn : column = index
  · subst hcolumn
    simp [List.getElem?_eq_getElem h]
  · simp [hcolumn, Table.row]

theorem row_pushColumn (table : Table) (name : String) (cells : List Value) (row : Nat) :
    (table.pushColumn ⟨name, cells⟩).row row =
      fun column ↦ if column = table.width then (cells[row]?).getD .nil
        else table.row row column := by
  funext column
  rw [Table.row, getElem?_pushColumn]
  by_cases hcolumn : column = table.width
  · simp [hcolumn]
  · simp [hcolumn, Table.row]

/-! ### Names -/

theorem names_setCells (table : Table) (index : Nat) (cells : List Value) :
    (table.setCells index cells).columns.map Column.name = table.columns.map Column.name := by
  refine List.ext_getElem? fun place ↦ ?_
  rw [List.getElem?_map, getElem?_setCells, List.getElem?_map]
  split
  · rw [Option.map_map]
    rfl
  · rfl

theorem schema_setCells (table : Table) (index : Nat) (cells : List Value) :
    (table.setCells index cells).schema = table.schema := by
  rw [schema, names_setCells, schema]

theorem schema_pushColumn (table : Table) (column : Column) :
    (table.pushColumn column).schema = table.schema.push column.name := by
  simp [schema, pushColumn, Schema.ofNames]

end Table

theorem Schema.width_ofNames (names : List String) :
    (Schema.ofNames names).width = names.length := (lists_ofNames names).width_eq

@[simp] theorem Table.width_schema (table : Table) : table.schema.width = table.width := by
  rw [Table.schema, Schema.width_ofNames, List.length_map, Table.width]

/-! ### Statements that write -/

namespace Statement

/-- The column that a statement writes in a table of the given width. -/
def column? (width : Nat) : Statement BoundColumn → Option Nat
  | .expression _ => none
  | .assign target _ => some target.index
  | .newColumn _ _ => some width

/-- The width behind a statement. -/
def widthBehind (width : Nat) : Statement BoundColumn → Nat
  | .newColumn _ _ => width + 1
  | _ => width

/-- The name of the column that a statement appends. -/
def newName? : Statement BoundColumn → Option String
  | .newColumn name _ => some name
  | _ => none

theorem width_extend (statement : Statement BoundColumn) (schema : Schema) :
    (statement.extend schema).width = statement.widthBehind schema.width := by
  cases statement with
  | expression => rfl
  | assign => rfl
  | newColumn name => exact Schema.width_push schema name

end Statement

namespace Table

variable {table : Table} {cells : List Value}

theorem rowCount_write (h : cells.length = table.rowCount) (statement : Statement BoundColumn) :
    (table.write statement cells).rowCount = table.rowCount := by
  cases statement with
  | expression => rfl
  | assign => exact rowCount_setCells h
  | newColumn => exact rowCount_pushColumn h

theorem schema_write (table : Table) (statement : Statement BoundColumn) (cells : List Value) :
    (table.write statement cells).schema = statement.extend table.schema := by
  cases statement with
  | expression => rfl
  | assign => exact schema_setCells _ _ _
  | newColumn => exact schema_pushColumn _ _

theorem width_write (table : Table) (statement : Statement BoundColumn) (cells : List Value) :
    (table.write statement cells).width = statement.widthBehind table.width := by
  rw [← width_schema, schema_write, Statement.width_extend, width_schema]

theorem names_write (table : Table) (statement : Statement BoundColumn) (cells : List Value) :
    (table.write statement cells).columns.map Column.name =
      table.columns.map Column.name ++ statement.newName?.toList := by
  cases statement with
  | expression => exact (List.append_nil _).symm
  | assign => exact (names_setCells _ _ _).trans (List.append_nil _).symm
  | newColumn => exact List.map_append

/-- A statement leaves every column alone that it does not write. -/
theorem getElem?_write_of_ne {statement : Statement BoundColumn} {column : Nat}
    (h : statement.column? table.width ≠ some column) (cells : List Value) :
    (table.write statement cells).columns[column]? = table.columns[column]? := by
  cases statement with
  | expression => rfl
  | assign target =>
    have hne : column ≠ target.index := fun heq ↦ h (congrArg some heq.symm)
    rw [write, getElem?_setCells, if_neg hne]
  | newColumn =>
    have hne : column ≠ table.width := fun heq ↦ h (congrArg some heq.symm)
    rw [write, getElem?_pushColumn, if_neg hne]

/-- The column that a statement writes holds the cells. -/
theorem cells_write {statement : Statement BoundColumn} {column : Nat}
    (h : statement.column? table.width = some column)
    (htarget : ∀ target value, statement = .assign target value → target.index < table.width)
    (cells : List Value) :
    ((table.write statement cells).columns[column]?).map Column.cells = some cells := by
  cases statement with
  | expression => cases h
  | assign target value =>
    obtain rfl := Option.some.inj h
    have hlt : target.index < table.columns.length := htarget target value rfl
    rw [write, getElem?_setCells, if_pos rfl, List.getElem?_eq_getElem hlt]
    rfl
  | newColumn =>
    obtain rfl := Option.some.inj h
    rw [write, getElem?_pushColumn, if_pos rfl]
    rfl

/-! ### The columns of a script -/

/-- Writes the columns of statements in order; the first statement's value is at place `k` of each
row's values. -/
def writeAll (table : Table) (outputs : List (List Value)) (k : Nat) :
    List (Statement BoundColumn) → Table
  | [] => table
  | statement :: rest =>
    (table.write statement (outputs.map fun values ↦ (values[k]?).getD .nil)).writeAll outputs
      (k + 1) rest

end Table

/-- Writing in place gives the same table. -/
theorem TableEdit.writeAll_apply (table : Table) (outputs : List (List Value)) (k : Nat)
    (statements : List (Statement BoundColumn)) :
    TableEdit.writeAll outputs k statements table =
      .ok () (table.writeAll outputs k statements) := by
  induction statements generalizing table k with
  | nil => rfl
  | cons statement rest ih => exact ih _ _

/-- The column that the statement at a place writes, if it writes one. -/
def writtenColumn? (width : Nat) : List (Statement BoundColumn) → Nat → Option Nat
  | [], _ => none
  | statement :: _, 0 => statement.column? width
  | statement :: rest, place + 1 => writtenColumn? (statement.widthBehind width) rest place

/-- The statement at a place is the last one that writes the column. -/
def LastWrite (width : Nat) (statements : List (Statement BoundColumn)) (place column : Nat) :
    Prop :=
  writtenColumn? width statements place = some column ∧
    ∀ later > place, writtenColumn? width statements later ≠ some column

theorem lt_length_of_writtenColumn? {width place column : Nat}
    {statements : List (Statement BoundColumn)}
    (h : writtenColumn? width statements place = some column) : place < statements.length := by
  induction statements generalizing width place with
  | nil =>
    rw [writtenColumn?] at h
    cases h
  | cons statement rest ih =>
    cases place with
    | zero => exact Nat.succ_pos _
    | succ place => exact Nat.succ_lt_succ (ih h)

/-- A column that is written has a last statement that writes it. -/
theorem exists_lastWrite {width place column : Nat} {statements : List (Statement BoundColumn)}
    (h : writtenColumn? width statements place = some column) :
    ∃ last, LastWrite width statements last column := by
  induction statements generalizing width place with
  | nil =>
    rw [writtenColumn?] at h
    cases h
  | cons statement rest ih =>
    by_cases hlater : ∃ later, writtenColumn? (statement.widthBehind width) rest later = some column
    · obtain ⟨later, hlater⟩ := hlater
      obtain ⟨last, hlast, hnone⟩ := ih hlater
      refine ⟨last + 1, hlast, fun place hlt ↦ ?_⟩
      obtain ⟨place, rfl⟩ := Nat.exists_eq_succ_of_ne_zero (Nat.ne_zero_of_lt hlt)
      exact hnone place (Nat.lt_of_succ_lt_succ hlt)
    · cases place with
      | zero =>
        refine ⟨0, h, fun place hlt hplace ↦ ?_⟩
        obtain ⟨place, rfl⟩ := Nat.exists_eq_succ_of_ne_zero (Nat.ne_zero_of_lt hlt)
        exact hlater ⟨place, hplace⟩
      | succ place => exact absurd ⟨place, h⟩ hlater

/-- Every assignment has its target among the columns that exist when it is run. -/
def TargetsWithin (width : Nat) : List (Statement BoundColumn) → Prop
  | [] => True
  | statement :: rest =>
    (∀ target value, statement = .assign target value → target.index < width) ∧
      TargetsWithin (statement.widthBehind width) rest

namespace Table

variable {table : Table} {statements : List (Statement BoundColumn)}

/-- New columns are appended in the order of their statements, and no other name changes. -/
theorem names_writeAll (table : Table) (outputs : List (List Value)) (k : Nat)
    (statements : List (Statement BoundColumn)) :
    (table.writeAll outputs k statements).columns.map Column.name =
      table.columns.map Column.name ++ statements.filterMap Statement.newName? := by
  induction statements generalizing table k with
  | nil => exact (List.append_nil _).symm
  | cons statement rest ih =>
    rw [writeAll, ih, names_write, List.append_assoc, List.filterMap_cons]
    cases statement.newName? <;> rfl

/-- A column that no statement writes is not changed. -/
theorem columns_writeAll_of_not_written {column : Nat}
    (h : ∀ place, writtenColumn? table.width statements place ≠ some column)
    (outputs : List (List Value)) (k : Nat) :
    (table.writeAll outputs k statements).columns[column]? = table.columns[column]? := by
  induction statements generalizing table k with
  | nil => rfl
  | cons statement rest ih =>
    have hrest : ∀ (cells : List Value) (place : Nat),
        writtenColumn? (table.write statement cells).width rest place ≠ some column := by
      intro cells place
      rw [width_write]
      exact h (place + 1)
    rw [writeAll, ih (hrest _), getElem?_write_of_ne (h 0)]

/-- A column that is written holds the values of the last statement that writes it. -/
theorem cells_writeAll_of_lastWrite {place column : Nat}
    (htargets : TargetsWithin table.width statements)
    (h : LastWrite table.width statements place column) (outputs : List (List Value)) (k : Nat) :
    ((table.writeAll outputs k statements).columns[column]?).map Column.cells =
      some (outputs.map fun values ↦ (values[k + place]?).getD .nil) := by
  induction statements generalizing table k place with
  | nil =>
    obtain ⟨hwrites, -⟩ := h
    rw [writtenColumn?] at hwrites
    cases hwrites
  | cons statement rest ih =>
    obtain ⟨htarget, hrest⟩ := htargets
    obtain ⟨hwrites, hlast⟩ := h
    let cells := outputs.map fun values ↦ (values[k]?).getD .nil
    have hwidth : (table.write statement cells).width = statement.widthBehind table.width :=
      width_write table statement cells
    rw [← hwidth] at hrest
    cases place with
    | zero =>
      have hnot : ∀ later, writtenColumn? (table.write statement cells).width rest later ≠
          some column := by
        intro later
        rw [hwidth]
        exact hlast (later + 1) (Nat.succ_pos later)
      rw [writeAll, columns_writeAll_of_not_written hnot]
      exact cells_write hwrites htarget cells
    | succ place =>
      have hlater : LastWrite (table.write statement cells).width rest place column := by
        rw [hwidth]
        exact ⟨hwrites, fun later hlt ↦ hlast (later + 1) (Nat.succ_lt_succ hlt)⟩
      rw [writeAll, ih hrest hlater, Nat.succ_add_eq_add_succ]

/-- Columns of the table are written by assignments only. -/
theorem exists_assign_of_writtenColumn? {width place column : Nat}
    (h : writtenColumn? width statements place = some column) (hcolumn : column < width) :
    ∃ target value, .assign target value ∈ statements ∧ target.index = column := by
  induction statements generalizing width place with
  | nil =>
    rw [writtenColumn?] at h
    cases h
  | cons statement rest ih =>
    cases place with
    | zero =>
      cases statement with
      | expression => cases h
      | assign target value => exact ⟨target, value, List.mem_cons_self, Option.some.inj h⟩
      | newColumn =>
        obtain rfl := Option.some.inj h
        exact absurd hcolumn (Nat.lt_irrefl _)
    | succ place =>
      have hwidth : width ≤ statement.widthBehind width := by
        cases statement with
        | newColumn => exact Nat.le_succ width
        | _ => exact Nat.le_refl width
      obtain ⟨target, value, hmem, hindex⟩ := ih h (Nat.lt_of_lt_of_le hcolumn hwidth)
      exact ⟨target, value, List.mem_cons_of_mem statement hmem, hindex⟩

end Table

end ColumnFormula
