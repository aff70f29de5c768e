import ColumnFormula.Proofs.Dataset.Import
import ColumnFormula.Proofs.Number.Magnitude

/-!
# Export and import of datasets

Exporting a table and importing the document gives the table back, with every column filled up by
nil to the number of rows, numbers that are not finite replaced by nil and a negative zero by zero
(`exported_roundTrip`). Whole numbers below `2 ^ 53` travel as integers and all others in binary;
both encodings keep the number, since an integer of so few bits is rounded to itself
(`Value.ofJson_toJson`). What is lost is lost in the document already, so a second export gives the
same document.
-/

set_option autoImplicit false
set_option relaxedAutoImplicit false

namespace ColumnFormula

/-! ### Numbers -/

namespace Binary64

theorem isFinite_of_isWhole {x : Binary64} (h : x.isWhole = true) : x.isFinite = true := by
  cases x with
  | finite => rfl
  | _ => cases h

/-- A whole number is found again from its numerator. -/
theorem ofInt_num_toRat {x : Binary64} (h : x.isWhole = true) :
    ofInt x.toRat.num = x.withoutNegativeZero := by
  have hden : x.toRat.den = 1 := by
    cases x with
    | finite => exact beq_iff_eq.mp h
    | _ => cases h
  rw [ofInt, Rat.coe_int_num_of_den_eq_one hden,
    ofRat_toRat_of_isFinite (isFinite_of_isWhole h)]

end Binary64

/-! ### Cells -/

namespace Value

/-- What a document keeps of a cell. -/
def exported : Value → Value
  | .number x => if x.isFinite then .number x.withoutNegativeZero else .nil
  | value => value

theorem toJson_number (x : Binary64) :
    (Value.number x).toJson =
      if x.isWhole && x.magnitude < 0x20000000000000 then .integer x.toRat.num
      else if x.isFinite then .number x
      else .null := rfl

/-- Both zeros are written as the integer zero. -/
theorem toJson_zero (negative : Bool) : (Value.number (.zero negative)).toJson = .integer 0 := by
  have hinteger : ∀ negative, ((Binary64.zero negative).isWhole &&
      (Binary64.zero negative).magnitude < 0x20000000000000) = true := by decide +kernel
  have hvalue : ∀ negative, (Binary64.zero negative).toRat.num = 0 := by decide +kernel
  rw [toJson_number, if_pos (hinteger negative), hvalue]

/-- The two encodings of numbers, and the third for numbers that have none. -/
theorem ofJson_toJson (value : Value) : Value.ofJson value.toJson = value.exported := by
  cases value with
  | number x =>
    rw [toJson_number, exported]
    by_cases hinteger : (x.isWhole && x.magnitude < 0x20000000000000) = true
    · have hwhole : x.isWhole = true := (Bool.and_eq_true_iff.mp hinteger).1
      rw [if_pos hinteger, if_pos (Binary64.isFinite_of_isWhole hwhole), ofJson,
        Binary64.ofInt_num_toRat hwhole]
    · rw [if_neg hinteger]
      split
      · -- A negative zero is a whole number, so it is not encoded in binary.
        have hzero : x ≠ .zero true := by
          rintro rfl
          exact hinteger (by decide +kernel)
        rw [ofJson, Binary64.withoutNegativeZero, if_neg hzero]
      · rfl
  | _ => rfl

/-- The document of a cell has nothing more of it than what it keeps. -/
theorem toJson_exported (value : Value) : value.exported.toJson = value.toJson := by
  cases value with
  | number x =>
    rw [exported]
    by_cases hzero : x = .zero true
    · subst hzero
      exact (toJson_zero false).trans (toJson_zero true).symm
    · rw [Binary64.withoutNegativeZero, if_neg hzero]
      split
      · rfl
      · rename_i hfinite
        have hwhole : ¬x.isWhole = true := fun h ↦ hfinite (Binary64.isFinite_of_isWhole h)
        rw [toJson_number, if_neg fun h ↦ hwhole (Bool.and_eq_true_iff.mp h).1, if_neg hfinite]
        rfl
  | _ => rfl

end Value

/-! ### Tables -/

namespace Table

/-- What a document keeps of a table: a cell in every row of every column. -/
def exported (table : Table) : Table :=
  ⟨table.columns.map fun column ↦
    ⟨column.name, (List.range table.rowCount).map fun row ↦
      ((column.cells[row]?).getD .nil).exported⟩⟩

/-- The rows of the document of a table. -/
def jsonRows (table : Table) : List (List JsonValue) :=
  (List.range table.rowCount).map fun index ↦ (table.rowValues index).map Value.toJson

theorem toJson_eq (table : Table) :
    table.toJson = .object [
      ("columns", .array ((table.columns.map Column.name).map .text)),
      ("rows", .array (table.jsonRows.map .array))] := by
  rw [toJson, jsonRows, List.map_map, List.map_map]
  rfl

/-- A table that goes through a document is the table of its names and rows. -/
theorem exported_eq_ofRows (table : Table) :
    table.exported =
      ofRows (table.columns.map Column.name) (table.jsonRows.map (List.map Value.ofJson)) := by
  suffices hcolumns : table.exported.columns = (ofRows (table.columns.map Column.name)
      (table.jsonRows.map (List.map Value.ofJson))).columns from congrArg Table.mk hcolumns
  refine List.ext_getElem? fun column ↦ ?_
  rw [getElem?_ofRows, exported, List.getElem?_map, List.getElem?_map, Option.map_map]
  cases hcolumn : table.columns[column]? with
  | none => rfl
  | some found =>
    have hcell : ∀ row, (((table.rowValues row).map Value.toJson).map Value.ofJson)[column]? =
        some ((found.cells[row]?).getD .nil).exported := by
      intro row
      rw [rowValues, List.map_map, List.map_map, List.getElem?_map, hcolumn, Option.map_some,
        ← Value.ofJson_toJson]
      rfl
    have hcells : ((table.jsonRows.map (List.map Value.ofJson)).map fun cells ↦
        (cells[column]?).getD .nil) =
          (List.range table.rowCount).map fun row ↦ ((found.cells[row]?).getD .nil).exported := by
      rw [jsonRows, List.map_map, List.map_map]
      exact List.map_congr_left fun row _ ↦ congrArg (·.getD .nil) (hcell row)
    simp only [Option.map_some, Function.comp_apply, hcells]

theorem names_exported (table : Table) :
    table.exported.columns.map Column.name = table.columns.map Column.name := by
  rw [exported_eq_ofRows, names_ofRows]

theorem rowCount_exported (table : Table) : table.exported.rowCount = table.rowCount := by
  by_cases hnames : table.columns.map Column.name = []
  · obtain ⟨columns⟩ := table
    obtain rfl := List.map_eq_nil_iff.mp hnames
    rfl
  · rw [exported_eq_ofRows, rowCount_ofRows hnames, List.length_map, jsonRows, List.length_map,
      List.length_range]

theorem jsonRows_exported (table : Table) : table.exported.jsonRows = table.jsonRows := by
  rw [jsonRows, rowCount_exported, jsonRows]
  refine List.map_congr_left fun row hrow ↦ ?_
  have hlt := List.mem_range.mp hrow
  rw [rowValues, rowValues, exported, List.map_map, List.map_map, List.map_map]
  refine List.map_congr_left fun column _ ↦ ?_
  rw [Function.comp_apply, Function.comp_apply, Function.comp_apply, List.getElem?_map,
    List.getElem?_range hlt, Option.map_some, Option.getD_some, Value.toJson_exported]

end Table

/-- Importing the document of a table gives the table with every column filled up by nil to the
number of rows, nil for each number that is not finite and zero for each negative zero, and nothing
else changed; and this table has the same document. -/
theorem exported_roundTrip (table : Table) :
    Table.ofJson table.toJson = .ok table.exported ∧ table.exported.toJson = table.toJson := by
  constructor
  · have hlengths : ∀ row ∈ table.jsonRows,
        row.length ≤ (table.columns.map Column.name).length := by
      intro row hrow
      obtain ⟨index, -, rfl⟩ := List.mem_map.mp hrow
      rw [List.length_map, Table.rowValues, List.length_map, List.length_map]
    exact Table.ofJson_eq_ok_iff.mpr ⟨_, _, _, table.toJson_eq, rfl, .inl rfl, hlengths,
      table.exported_eq_ofRows⟩
  · rw [Table.toJson_eq, Table.names_exported, Table.jsonRows_exported, ← Table.toJson_eq]

end ColumnFormula
