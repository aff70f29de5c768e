import ColumnFormula.Dataset
import ColumnFormula.Proofs.Table.Writing
import ColumnFormula.Proofs.Outcome

/-!
# Importing datasets

Which documents are datasets and what their tables hold. A document is imported exactly if it is an
object with a list of texts as its columns and, unless its rows are missing, a list of lists no
longer than that as its rows (`Table.ofJson_eq_ok_iff`). Every column of the table gets a cell from
every row, nil where the row is too short, so a table with a column has as many rows as the document
(`Table.rowCount_ofRows`), and its rows are those of the document in their order
(`Table.row_ofRows`).
-/

set_option autoImplicit false
set_option relaxedAutoImplicit false

namespace ColumnFormula

/-! ### Documents -/

theorem columnNames_eq_ok_iff {items : List JsonValue} {names : List String} :
    columnNames items = .ok names ↔ items = names.map .text := by
  induction items generalizing names with
  | nil =>
    rw [columnNames, eq_comm (a := []), List.map_eq_nil_iff]
    exact ⟨fun h ↦ (Except.ok.inj h).symm, fun h ↦ congrArg _ h.symm⟩
  | cons item rest ih =>
    cases item with
    | text name =>
      rw [columnNames, map_eq_ok_iff]
      constructor
      · rintro ⟨others, hothers, rfl⟩
        rw [ih.mp hothers, List.map_cons]
      · intro h
        obtain ⟨_, others, rfl, hfirst, hothers⟩ := List.map_eq_cons_iff.mp h.symm
        cases hfirst
        exact ⟨others, ih.mpr hothers.symm, rfl⟩
    | _ =>
      constructor
      · nofun
      · intro h
        obtain ⟨_, _, _, hfirst, _⟩ := List.map_eq_cons_iff.mp h.symm
        cases hfirst

theorem rowCells_eq_ok_iff {width index : Nat} {items : List JsonValue}
    {cells : List (List Value)} :
    rowCells width index items = .ok cells ↔
      ∃ rows : List (List JsonValue), items = rows.map .array ∧
        (∀ row ∈ rows, row.length ≤ width) ∧ cells = rows.map (List.map Value.ofJson) := by
  induction items generalizing index cells with
  | nil =>
    constructor
    · intro h
      cases h
      exact ⟨[], rfl, nofun, rfl⟩
    · rintro ⟨rows, hrows, -, rfl⟩
      obtain rfl := List.map_eq_nil_iff.mp hrows.symm
      rfl
  | cons item rest ih =>
    cases item with
    | array row =>
      rw [rowCells]
      split
      · rename_i hlong
        constructor
        · nofun
        · rintro ⟨rows, hrows, hshort, -⟩
          obtain ⟨_, _, rfl, hfirst, _⟩ := List.map_eq_cons_iff.mp hrows.symm
          cases hfirst
          exact absurd hlong (Nat.not_lt.mpr (hshort row List.mem_cons_self))
      · rename_i hshort
        rw [map_eq_ok_iff]
        constructor
        · rintro ⟨others, hothers, rfl⟩
          obtain ⟨rows, rfl, hrows, rfl⟩ := ih.mp hothers
          exact ⟨row :: rows, rfl, List.forall_mem_cons.mpr ⟨Nat.not_lt.mp hshort, hrows⟩, rfl⟩
        · rintro ⟨rows, hrows, hlengths, rfl⟩
          obtain ⟨_, others, rfl, hfirst, hothers⟩ := List.map_eq_cons_iff.mp hrows.symm
          cases hfirst
          exact ⟨_, ih.mpr ⟨others, hothers.symm, (List.forall_mem_cons.mp hlengths).2, rfl⟩, rfl⟩
    | _ =>
      constructor
      · nofun
      · rintro ⟨_, hrows, _⟩
        obtain ⟨_, _, _, hfirst, _⟩ := List.map_eq_cons_iff.mp hrows.symm
        cases hfirst

namespace Table

/-- The rows of a document without a list of rows are none. -/
def HasRows (members : List (String × JsonValue)) (rows : List (List JsonValue)) : Prop :=
  members.lookup "rows" = some (.array (rows.map .array)) ∨
    members.lookup "rows" = none ∧ rows = []

/-- What a dataset is, and the table it stands for. -/
theorem ofJson_eq_ok_iff {document : JsonValue} {table : Table} :
    Table.ofJson document = .ok table ↔
      ∃ members names rows, document = .object members ∧
        members.lookup "columns" = some (.array (names.map .text)) ∧ HasRows members rows ∧
        (∀ row ∈ rows, row.length ≤ names.length) ∧
        table = ofRows names (rows.map (List.map Value.ofJson)) := by
  cases document with
  | object members =>
    rw [ofJson]
    constructor
    · intro h
      split at h
      · rename_i items hcolumns
        obtain ⟨names, hnames, hrest⟩ := bind_eq_ok_iff.mp h
        rw [columnNames_eq_ok_iff.mp hnames] at hcolumns
        dsimp only at hrest
        split at hrest
        · rename_i items hrows
          rw [ok_bind] at hrest
          obtain ⟨cells, hcells, htable⟩ := bind_eq_ok_iff.mp hrest
          obtain rfl := Except.ok.inj htable
          obtain ⟨rows, rfl, hlengths, rfl⟩ := rowCells_eq_ok_iff.mp hcells
          exact ⟨members, names, rows, rfl, hcolumns, .inl hrows, hlengths, rfl⟩
        · rename_i hrows
          cases hrest
          exact ⟨members, names, [], rfl, hcolumns, .inr ⟨hrows, rfl⟩, nofun, rfl⟩
        · cases hrest
      · cases h
    · rintro ⟨_, names, rows, ⟨⟩, hcolumns, hrows, hlengths, rfl⟩
      have hcells : rowCells names.length 0 (rows.map .array) =
          .ok (rows.map (List.map Value.ofJson)) :=
        rowCells_eq_ok_iff.mpr ⟨rows, rfl, hlengths, rfl⟩
      rw [hcolumns]
      dsimp only
      rw [columnNames_eq_ok_iff.mpr rfl, ok_bind]
      rcases hrows with hrows | ⟨hrows, rfl⟩
      · rw [hrows]
        dsimp only
        rw [ok_bind, hcells]
        rfl
      · rw [hrows]
        rfl
  | _ => exact ⟨nofun, by rintro ⟨_, _, _, ⟨⟩, _⟩⟩

/-! ### The table of rows -/

variable {names : List String} {rows : List (List Value)}

theorem getElem?_ofRows (names : List String) (rows : List (List Value)) (column : Nat) :
    (ofRows names rows).columns[column]? =
      (names[column]?).map fun name ↦
        ⟨name, rows.map fun cells ↦ (cells[column]?).getD .nil⟩ := by
  rw [ofRows, List.getElem?_mapIdx]

@[simp] theorem names_ofRows (names : List String) (rows : List (List Value)) :
    (ofRows names rows).columns.map Column.name = names := by
  refine List.ext_getElem? fun column ↦ ?_
  rw [List.getElem?_map, getElem?_ofRows, Option.map_map]
  exact Option.map_id'

/-- A table with a column has as many rows as there are rows to fill it. -/
theorem rowCount_ofRows (hnames : names ≠ []) (rows : List (List Value)) :
    (ofRows names rows).rowCount = rows.length := by
  have hlength : ∀ column ∈ (ofRows names rows).columns, column.cells.length = rows.length := by
    intro column hcolumn
    obtain ⟨place, hplace⟩ := List.mem_iff_getElem?.mp hcolumn
    rw [getElem?_ofRows] at hplace
    obtain ⟨name, -, rfl⟩ := Option.map_eq_some_iff.mp hplace
    exact List.length_map _
  have hexists : (ofRows names rows).columns ≠ [] := by simpa [ofRows] using hnames
  obtain ⟨column, hcolumn⟩ := List.exists_mem_of_ne_nil _ hexists
  refine Nat.le_antisymm (rowCount_le_iff.mpr fun c hc ↦ Nat.le_of_eq (hlength c hc)) ?_
  rw [← hlength column hcolumn]
  exact length_le_rowCount hcolumn

theorem rowCount_ofRows_nil (rows : List (List Value)) : (ofRows [] rows).rowCount = 0 := rfl

/-- A row as it was given, nil behind its end. -/
theorem row_ofRows {index : Nat} {cells : List Value} (hcells : rows[index]? = some cells)
    (hlength : cells.length ≤ names.length) :
    (ofRows names rows).row index = fun column ↦ (cells[column]?).getD .nil := by
  funext column
  rw [row, getElem?_ofRows]
  by_cases hcolumn : column < names.length
  · rw [List.getElem?_eq_getElem hcolumn, Option.map_some, Option.bind_some, List.getElem?_map,
      hcells, Option.map_some, Option.getD_some]
  · have hbehind : cells[column]? = none := List.getElem?_eq_none (by omega)
    rw [List.getElem?_eq_none (by omega), hbehind]
    rfl

/-- The cells of a row are those that evaluation sees, one for each column. -/
theorem rowValues_eq (table : Table) (index : Nat) :
    table.rowValues index = (List.range table.width).map (table.row index) := by
  refine List.ext_getElem? fun column ↦ ?_
  rw [rowValues, List.getElem?_map, List.getElem?_map]
  by_cases hcolumn : column < table.width
  · rw [List.getElem?_range hcolumn, Option.map_some, row,
      List.getElem?_eq_getElem (h := hcolumn)]
    rfl
  · rw [List.getElem?_eq_none (by simpa [width] using hcolumn),
      List.getElem?_eq_none (by simpa using hcolumn)]
    rfl

end Table

end ColumnFormula
