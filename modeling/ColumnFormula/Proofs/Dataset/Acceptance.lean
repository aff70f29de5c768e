import ColumnFormula.Proofs.Dataset.Import

/-!
# Which documents are imported

Import accepts the documents of one shape (`Table.IsDataset`) and makes the table that holds their
cells, nil where a row is short (`Table.Holds`). Every other document is refused, and the first of
its faults in the order of the checks gives the error (`Table.Refused`): it is no object, its
columns are no list, one of them has no text as its name, its rows are no list, or an item among
the rows is no list or longer than the list of columns. For columns and rows that is the first such
item: whatever stands in front of it is read and thrown away (`columnNames_eq_error_iff`,
`rowCells_eq_error_iff`). The two sides exclude each other and leave no document out
(`Table.importsExactly`).
-/

set_option autoImplicit false
set_option relaxedAutoImplicit false

namespace ColumnFormula

/-! ### Names of columns -/

/-- The first item that is no text gives the error. -/
theorem columnNames_eq_error_iff {items : List JsonValue} {error : DatasetError} :
    columnNames items = .error error ↔
      SplitsAt (fun other ↦ ∃ name, other = .text name)
        (fun _ found ↦ (∀ name, found ≠ .text name) ∧ error = .columnNameNotText found) items := by
  induction items with
  | nil => exact ⟨nofun, fun h ↦ absurd h not_splitsAt_nil⟩
  | cons item rest ih =>
    rw [splitsAt_cons_iff, ← ih]
    by_cases htext : ∃ name, item = .text name
    · obtain ⟨name, rfl⟩ := htext
      rw [columnNames, map_eq_error_iff]
      refine ⟨fun h ↦ .inr ⟨⟨name, rfl⟩, h⟩, ?_⟩
      rintro (⟨hfound, -⟩ | ⟨-, h⟩)
      · exact absurd rfl (hfound name)
      · exact h
    · have hstop : columnNames (item :: rest) = .error (.columnNameNotText item) := by
        cases item with
        | text name => exact absurd ⟨name, rfl⟩ htext
        | _ => rfl
      rw [hstop]
      constructor
      · exact fun h ↦ .inl ⟨not_exists.mp htext, (Except.error.inj h).symm⟩
      · rintro (⟨-, rfl⟩ | ⟨h, -⟩)
        · rfl
        · exact absurd h htext

/-! ### Rows -/

/-- A list with no more cells than there are columns. -/
def IsRow (width : Nat) (item : JsonValue) : Prop :=
  ∃ cells, item = .array cells ∧ cells.length ≤ width

/-- What is wrong with an item among the rows. -/
inductive RowFault (width index : Nat) : JsonValue → DatasetError → Prop
  | notArray (item : JsonValue) (h : ∀ cells, item ≠ .array cells) :
    RowFault width index item (.rowNotArray index)
  | tooLong (cells : List JsonValue) (h : width < cells.length) :
    RowFault width index (.array cells) (.rowTooLong index cells.length width)

section Rows

variable {width index : Nat} {item : JsonValue} {items rest : List JsonValue}
  {error : DatasetError}

theorem exists_rowFault_iff : (∃ error, RowFault width index item error) ↔ ¬IsRow width item := by
  constructor
  · rintro ⟨_, hfault⟩ ⟨cells, rfl, hlength⟩
    cases hfault with
    | notArray _ h => exact h cells rfl
    | tooLong _ h => exact absurd h (Nat.not_lt.mpr hlength)
  · intro hrow
    by_cases harray : ∃ cells, item = .array cells
    · obtain ⟨cells, rfl⟩ := harray
      exact ⟨_, .tooLong cells (Nat.not_le.mp fun hlength ↦ hrow ⟨cells, rfl, hlength⟩)⟩
    · exact ⟨_, .notArray item (not_exists.mp harray)⟩

/-- The message of a fault begins with the number of the row. -/
theorem RowFault.message_eq (h : RowFault width index item error) :
    ∃ text, error.message = s!"row {index} " ++ text := by
  cases h with
  | notArray _ _ =>
    have hblank : " is not an array" = " " ++ "is not an array" := by decide
    exact ⟨"is not an array", (congrArg _ hblank).trans String.append_assoc.symm⟩
  | tooLong cells _ =>
    have hword : s!"row {index}" ++ " has " = s!"row {index} " ++ "has " := by
      have hblank : " has " = " " ++ "has " := by decide
      exact (congrArg _ hblank).trans String.append_assoc.symm
    refine ⟨"has " ++ s!"{cells.length}" ++ " cells but there are " ++ s!"{width}" ++ " columns",
      ?_⟩
    calc (DatasetError.rowTooLong index cells.length width).message
      _ = s!"row {index}" ++ " has " ++ s!"{cells.length}" ++ " cells but there are " ++
          s!"{width}" ++ " columns" := rfl
      _ = s!"row {index} " ++ "has " ++ s!"{cells.length}" ++ " cells but there are " ++
          s!"{width}" ++ " columns" := by rw [hword]
      _ = _ := by simp only [String.append_assoc]

/-- The first of the items that is no row has the given fault. -/
def FirstFault (width index : Nat) (items : List JsonValue) (error : DatasetError) : Prop :=
  SplitsAt (IsRow width) (fun n item ↦ RowFault width (index + n) item error) items

theorem firstFault_cons_iff :
    FirstFault width index (item :: rest) error ↔
      RowFault width index item error ∨
        IsRow width item ∧ FirstFault width (index + 1) rest error := by
  have hnumber (n : Nat) : index + 1 + n = index + (n + 1) := by omega
  simp only [FirstFault, hnumber]
  exact splitsAt_cons_iff

/-- Rows are read up to the first fault. -/
theorem rowCells_eq_error_iff :
    rowCells width index items = .error error ↔ FirstFault width index items error := by
  induction items generalizing index with
  | nil => exact ⟨nofun, fun h ↦ absurd h not_splitsAt_nil⟩
  | cons item rest ih =>
    rw [firstFault_cons_iff]
    by_cases hrow : IsRow width item
    · obtain ⟨cells, rfl, hlength⟩ := hrow
      rw [rowCells, if_neg (Nat.not_lt.mpr hlength), map_eq_error_iff, ih]
      refine ⟨fun h ↦ .inr ⟨⟨cells, rfl, hlength⟩, h⟩, ?_⟩
      rintro (hfault | ⟨-, h⟩)
      · exact absurd ⟨cells, rfl, hlength⟩ (exists_rowFault_iff.mp ⟨error, hfault⟩)
      · exact h
    · have hstop : rowCells width index (item :: rest) = .error error ↔
          RowFault width index item error := by
        constructor
        · intro h
          cases item with
          | array cells =>
            have hlong : width < cells.length :=
              Nat.not_le.mp fun hlength ↦ hrow ⟨cells, rfl, hlength⟩
            rw [rowCells, if_pos hlong] at h
            cases h
            exact .tooLong cells hlong
          | _ =>
            cases h
            refine .notArray _ fun cells hcells ↦ ?_
            cases hcells
        · intro hfault
          cases hfault with
          | tooLong cells hlong => rw [rowCells, if_pos hlong]
          | notArray _ hitem =>
            cases item with
            | array cells => exact absurd rfl (hitem cells)
            | _ => rfl
      rw [hstop]
      exact ⟨.inl, fun h ↦ h.resolve_right fun h ↦ hrow h.1⟩

end Rows

namespace Table

/-! ### Accepted documents -/

/-- An object with the given names as its columns and the given lists as its rows, none of them
longer than the list of names. -/
def IsDataset (document : JsonValue) (names : List String) (rows : List (List JsonValue)) : Prop :=
  ∃ members, document = .object members ∧
    members.lookup "columns" = some (.array (names.map .text)) ∧ HasRows members rows ∧
    ∀ row ∈ rows, row.length ≤ names.length

/-- The table has a column for each name, and in it a cell for each row: the value at that place of
the row, nil behind its end. -/
structure Holds (table : Table) (names : List String) (rows : List (List JsonValue)) : Prop where
  names : table.columns.map Column.name = names
  length : ∀ column ∈ table.columns, column.cells.length = rows.length
  cell : ∀ (i j : Nat) (row : List JsonValue) (column : Column), rows[i]? = some row →
    table.columns[j]? = some column →
      column.cells[i]? = some (((row[j]?).map Value.ofJson).getD .nil)

section Accepted

variable {document : JsonValue} {table : Table} {names : List String}
  {rows : List (List JsonValue)}

theorem ofJson_eq_ok_iff_isDataset :
    ofJson document = .ok table ↔
      ∃ names rows, IsDataset document names rows ∧
        table = ofRows names (rows.map (List.map Value.ofJson)) := by
  rw [ofJson_eq_ok_iff]
  constructor
  · rintro ⟨members, names, rows, hdocument, hcolumns, hrows, hlengths, htable⟩
    exact ⟨names, rows, ⟨members, hdocument, hcolumns, hrows, hlengths⟩, htable⟩
  · rintro ⟨names, rows, ⟨members, hdocument, hcolumns, hrows, hlengths⟩, htable⟩
    exact ⟨members, names, rows, hdocument, hcolumns, hrows, hlengths, htable⟩

/-- Each column holds the values at its place in the rows. -/
theorem getElem?_ofRows_ofJson (names : List String) (rows : List (List JsonValue)) (j : Nat) :
    (ofRows names (rows.map (List.map Value.ofJson))).columns[j]? =
      (names[j]?).map fun name ↦
        ⟨name, rows.map fun row ↦ ((row[j]?).map Value.ofJson).getD .nil⟩ := by
  have hcells : (rows.map (List.map Value.ofJson)).map (fun cells ↦ (cells[j]?).getD .nil) =
      rows.map fun row ↦ ((row[j]?).map Value.ofJson).getD .nil := by
    rw [List.map_map]
    exact List.map_congr_left fun row _ ↦ by rw [Function.comp_apply, List.getElem?_map]
  rw [getElem?_ofRows, hcells]

theorem cells_ofRows {j : Nat} {column : Column}
    (h : (ofRows names (rows.map (List.map Value.ofJson))).columns[j]? = some column) :
    column.cells = rows.map fun row ↦ ((row[j]?).map Value.ofJson).getD .nil := by
  rw [getElem?_ofRows_ofJson] at h
  obtain ⟨name, -, rfl⟩ := Option.map_eq_some_iff.mp h
  rfl

theorem holds_ofRows : (ofRows names (rows.map (List.map Value.ofJson))).Holds names rows where
  names := names_ofRows _ _
  length column hcolumn := by
    obtain ⟨j, hj⟩ := List.mem_iff_getElem?.mp hcolumn
    rw [cells_ofRows hj, List.length_map]
  cell i j row column hrow hcolumn := by
    rw [cells_ofRows hcolumn, List.getElem?_map, hrow, Option.map_some]

/-- Names and cells determine a table. -/
theorem Holds.eq_ofRows (h : table.Holds names rows) :
    table = ofRows names (rows.map (List.map Value.ofJson)) := by
  have hcells {j : Nat} {column : Column} (hcolumn : table.columns[j]? = some column) :
      column.cells = rows.map fun row ↦ ((row[j]?).map Value.ofJson).getD .nil := by
    refine List.ext_getElem? fun i ↦ ?_
    rw [List.getElem?_map]
    cases hrow : rows[i]? with
    | some row => rw [h.cell i j row column hrow hcolumn, Option.map_some]
    | none =>
      have hlength := h.length column (List.mem_of_getElem? hcolumn)
      exact List.getElem?_eq_none (hlength ▸ List.getElem?_eq_none_iff.mp hrow)
  have hcolumns : table.columns = (ofRows names (rows.map (List.map Value.ofJson))).columns := by
    refine List.ext_getElem? fun j ↦ ?_
    rw [getElem?_ofRows_ofJson, ← h.names, List.getElem?_map, Option.map_map]
    cases hcolumn : table.columns[j]? with
    | none => rfl
    | some column => exact congrArg (some ∘ Column.mk column.name) (hcells hcolumn)
  exact congrArg Table.mk hcolumns

end Accepted

/-! ### Refused documents -/

/-- The first fault of a document in the order in which it is checked. -/
inductive Refused : JsonValue → DatasetError → Prop
  | notObject (document : JsonValue) (h : ∀ members, document ≠ .object members) :
    Refused document .notObject
  | columnsNotArray (members : List (String × JsonValue))
      (h : ∀ items, members.lookup "columns" ≠ some (.array items)) :
    Refused (.object members) .columnsNotArray
  | columnNameNotText (members : List (String × JsonValue)) (front : List JsonValue)
      (found : JsonValue) (behind : List JsonValue)
      (hcolumns : members.lookup "columns" = some (.array (front ++ found :: behind)))
      (hfront : ∀ other ∈ front, ∃ name, other = .text name) (h : ∀ name, found ≠ .text name) :
    Refused (.object members) (.columnNameNotText found)
  | rowsNotArray (members : List (String × JsonValue)) (names : List String) (rows : JsonValue)
      (hcolumns : members.lookup "columns" = some (.array (names.map .text)))
      (hrows : members.lookup "rows" = some rows) (h : ∀ items, rows ≠ .array items) :
    Refused (.object members) .rowsNotArray
  | row (members : List (String × JsonValue)) (names : List String) (items : List JsonValue)
      (error : DatasetError)
      (hcolumns : members.lookup "columns" = some (.array (names.map .text)))
      (hrows : members.lookup "rows" = some (.array items))
      (h : FirstFault names.length 0 items error) :
    Refused (.object members) error

/-- Where there are names and a list of rows, all depends on the rows. -/
theorem ofJson_object {members : List (String × JsonValue)} {names : List String}
    {items : List JsonValue} (hcolumns : members.lookup "columns" = some (.array (names.map .text)))
    (hrows : members.lookup "rows" = some (.array items)) :
    ofJson (.object members) = (rowCells names.length 0 items).map (ofRows names) := by
  rw [ofJson, hcolumns]
  dsimp only
  rw [columnNames_eq_ok_iff.mpr rfl, ok_bind, hrows]
  dsimp only
  rw [ok_bind]
  cases rowCells names.length 0 items <;> rfl

theorem ofJson_eq_error_iff {document : JsonValue} {error : DatasetError} :
    ofJson document = .error error ↔ Refused document error := by
  constructor
  · intro h
    cases document with
    | object members =>
      rw [ofJson] at h
      split at h
      · rename_i items hcolumns
        rcases bind_eq_error_iff.mp h with hnames | ⟨names, hnames, hrest⟩
        · obtain ⟨front, found, behind, rfl, hfront, hfound, rfl⟩ :=
            columnNames_eq_error_iff.mp hnames
          exact .columnNameNotText members front found behind hcolumns hfront hfound
        · rw [columnNames_eq_ok_iff.mp hnames] at hcolumns
          dsimp only at hrest
          split at hrest
          · rename_i items hrows
            rw [ok_bind] at hrest
            rcases bind_eq_error_iff.mp hrest with hcells | ⟨cells, -, htable⟩
            · exact .row members names items error hcolumns hrows
                (rowCells_eq_error_iff.mp hcells)
            · cases htable
          · cases hrest
          · rename_i rows hrows harray
            cases hrest
            exact .rowsNotArray members names rows hcolumns harray hrows
      · rename_i hcolumns
        cases h
        exact .columnsNotArray members hcolumns
    | _ =>
      cases h
      refine .notObject _ fun members hmembers ↦ ?_
      cases hmembers
  · intro h
    cases h with
    | notObject _ h =>
      cases document with
      | object members => exact absurd rfl (h members)
      | _ => rfl
    | columnsNotArray members h =>
      rw [ofJson]
      split
      · rename_i items hcolumns
        exact absurd hcolumns (h items)
      · rfl
    | columnNameNotText members front found behind hcolumns hfront h =>
      have hnames := columnNames_eq_error_iff.mpr ⟨front, found, behind, rfl, hfront, h, rfl⟩
      rw [ofJson, hcolumns]
      dsimp only
      rw [hnames]
      rfl
    | rowsNotArray members names rows hcolumns hrows h =>
      rw [ofJson, hcolumns]
      dsimp only
      rw [columnNames_eq_ok_iff.mpr rfl, ok_bind, hrows]
      cases rows with
      | array items => exact absurd rfl (h items)
      | _ => rfl
    | row members names items _ hcolumns hrows h =>
      rw [ofJson_object hcolumns hrows, map_eq_error_iff]
      exact rowCells_eq_error_iff.mpr h

/-! ### The shape that is imported -/

/-- Import accepts the documents of one shape and refuses all others. -/
structure ImportsExactly (document : JsonValue) : Prop where
  accepts : (∃ table, ofJson document = .ok table) ↔ ∃ names rows, IsDataset document names rows
  /-- A dataset gives the one table that holds its cells. -/
  holds : ∀ names rows table, IsDataset document names rows →
    (ofJson document = .ok table ↔ table.Holds names rows)
  refuses : (∃ error, ofJson document = .error error) ↔ ¬∃ names rows, IsDataset document names rows
  /-- The error is the one of the first fault. -/
  first_fault : ∀ error, ofJson document = .error error ↔ Refused document error
  /-- Where there are names and a list of rows, the error names the first item that is no row. -/
  first_row : ∀ (members : List (String × JsonValue)) (names : List String)
    (items : List JsonValue) (error : DatasetError), document = .object members →
    members.lookup "columns" = some (.array (names.map .text)) →
    members.lookup "rows" = some (.array items) → ofJson document = .error error →
      ∃ front item behind, items = front ++ item :: behind ∧
        (∀ other ∈ front, IsRow names.length other) ∧ ¬IsRow names.length item ∧
        RowFault names.length front.length item error ∧
        ∃ text, error.message = s!"row {front.length} " ++ text

theorem importsExactly (document : JsonValue) : ImportsExactly document := by
  have haccepts : (∃ table, ofJson document = .ok table) ↔
      ∃ names rows, IsDataset document names rows := by
    constructor
    · rintro ⟨table, htable⟩
      obtain ⟨names, rows, hdataset, -⟩ := ofJson_eq_ok_iff_isDataset.mp htable
      exact ⟨names, rows, hdataset⟩
    · rintro ⟨names, rows, hdataset⟩
      exact ⟨_, ofJson_eq_ok_iff_isDataset.mpr ⟨names, rows, hdataset, rfl⟩⟩
  refine ⟨haccepts, ?_, ?_, fun _ ↦ ofJson_eq_error_iff, ?_⟩
  · intro names rows table hdataset
    have himport := ofJson_eq_ok_iff_isDataset.mpr ⟨names, rows, hdataset, rfl⟩
    rw [himport, Except.ok.injEq]
    exact ⟨fun h ↦ h ▸ holds_ofRows, fun h ↦ h.eq_ofRows.symm⟩
  · rw [← haccepts]
    constructor
    · rintro ⟨error, herror⟩ ⟨table, htable⟩
      cases herror.symm.trans htable
    · intro hnone
      cases hresult : ofJson document with
      | ok table => exact absurd ⟨table, hresult⟩ hnone
      | error error => exact ⟨error, rfl⟩
  · rintro members names items error rfl hcolumns hrows herror
    rw [ofJson_object hcolumns hrows, map_eq_error_iff, rowCells_eq_error_iff] at herror
    obtain ⟨front, item, behind, hitems, hfront, hfault⟩ := herror
    rw [Nat.zero_add] at hfault
    exact ⟨front, item, behind, hitems, hfront, exists_rowFault_iff.mp ⟨error, hfault⟩, hfault,
      hfault.message_eq⟩

end Table

end ColumnFormula
