import ColumnFormula.Check
import ColumnFormula.Proofs.Dataset.Import
import ColumnFormula.Proofs.Dataset.RoundTrip
import ColumnFormula.Proofs.Table.NewColumn
import ColumnFormula.Proofs.Table.Refinement
import ColumnFormula.Proofs.Table.Runs

/-!
# The rows of a result

A check that runs gives one result row for each row of its document, in the same order
(`execute_rows`), if the document has a column. The tables in between hold columns only, so the
order has to be followed through them. A plan makes a row of the result from one row of the document
by laying the values of its statements over it in order (`Plan.rowBehind`); writing the columns does
the same to every row at once (`Table.row_writeAll_eq_rowBehind`). A table without a column has no
place for rows: whatever rows a document without columns has, its result has none
(`execute_rows_without_columns`).
-/

set_option autoImplicit false
set_option relaxedAutoImplicit false

namespace ColumnFormula

/-! ### What a plan makes of a row -/

/-- A row of the given width once statements have written their values to it. -/
def rowBehind (row : Row) (width : Nat) : List (Statement BoundColumn) → List Value → Row
  | [], _ => row
  | _, [] => row
  | statement :: rest, value :: values =>
    rowBehind (statement.lay ⟨row, []⟩ width value).row (statement.widthBehind width) rest values

namespace Plan

/-- The values of the statements for a row, nil for all of them if the row cannot be evaluated. -/
def valuesFor (plan : Plan) (row : Row) : List Value :=
  (plan.evaluate row).toOption.getD (List.replicate plan.statements.length .nil)

/-- What a row of the given width becomes. -/
def rowBehind (plan : Plan) (width : Nat) (row : Row) : Row :=
  ColumnFormula.rowBehind row width plan.statements (plan.valuesFor row)

end Plan

namespace Table

variable {table after : Table} {call : TableCall} {options : EvalOptions}

/-- Columns are written row by row: each row depends on its own values only. -/
theorem row_writeAll_eq_rowBehind {outputs : List (List Value)} {index k : Nat}
    {values : List Value} {statements : List (Statement BoundColumn)}
    (hvalues : outputs[index]? = some values) (hlength : values.length = k + statements.length)
    (htargets : TargetsWithin table.width statements) :
    (table.writeAll outputs k statements).row index =
      rowBehind (table.row index) table.width statements (values.drop k) := by
  induction statements generalizing table k with
  | nil => rw [writeAll, rowBehind]
  | cons statement rest ih =>
    obtain ⟨htarget, hrest⟩ := htargets
    rw [List.length_cons] at hlength
    have hk : k < values.length := by omega
    let cells := outputs.map fun values ↦ (values[k]?).getD .nil
    have hcell : cells[index]? = some values[k] := by
      rw [List.getElem?_map, hvalues, Option.map_some, List.getElem?_eq_getElem hk,
        Option.getD_some]
    have hwidth : (table.write statement cells).width = statement.widthBehind table.width :=
      width_write table statement cells
    rw [writeAll, List.drop_eq_getElem_cons hk, rowBehind, row_lay htarget hcell, ← hwidth]
    exact ih (by omega) (hwidth ▸ hrest)

/-- A call that succeeds turns each row into what its plan makes of it. -/
theorem row_of_run (h : call.run options table = .ok () after) {plan : Plan}
    (hplan : call.plan table = .ok plan) {index : Nat} (hindex : index < table.rowCount) :
    after.row index = plan.rowBehind table.width (table.row index) := by
  obtain ⟨_, outputs, hplan', houtputs, rfl⟩ := TableCall.run_eq_ok_iff.mp h
  obtain rfl := Except.ok.inj (hplan.symm.trans hplan')
  have hvalues : outputs[index]? = some (plan.valuesFor (table.row index)) := by
    rw [eq_map_of_runRows houtputs, List.getElem?_map, List.getElem?_range hindex]
    rfl
  have hlength : (plan.valuesFor (table.row index)).length = 0 + plan.statements.length := by
    rw [Nat.zero_add, Plan.valuesFor]
    cases hvalues : plan.evaluate (table.row index) with
    | ok values => exact TableCall.length_of_plan hplan hvalues
    | error error => exact List.length_replicate
  exact row_writeAll_eq_rowBehind hvalues hlength (TableCall.targetsWithin_of_plan hplan)

end Table

/-! ### Documents -/

namespace JsonValue

/-- The items of a member of a document, none if it is missing or no array. -/
def itemsOf (document : JsonValue) (name : String) : List JsonValue :=
  match document with
  | .object members =>
    match members.lookup name with
    | some (.array items) => items
    | _ => []
  | _ => []

/-- The cells of a row of a document, nil behind its end. -/
def toRow : JsonValue → Row
  | .array items => fun column ↦ ((items[column]?).map Value.ofJson).getD .nil
  | _ => fun _ ↦ .nil

end JsonValue

namespace Table

variable {document : JsonValue} {table : Table}

theorem itemsOf_toJson_columns (table : Table) :
    table.toJson.itemsOf "columns" = (table.columns.map Column.name).map .text := by
  rw [toJson_eq]
  rfl

theorem itemsOf_toJson_rows (table : Table) :
    table.toJson.itemsOf "rows" = (List.range table.rowCount).map fun index ↦
      .array (((List.range table.width).map (table.row index)).map Value.toJson) := by
  rw [toJson_eq]
  show table.jsonRows.map JsonValue.array = _
  rw [jsonRows, List.map_map]
  simp only [rowValues_eq, Function.comp_def]

theorem itemsOf_rows_of_hasRows {members : List (String × JsonValue)}
    {rows : List (List JsonValue)} (h : HasRows members rows) :
    (JsonValue.object members).itemsOf "rows" = rows.map .array := by
  rw [JsonValue.itemsOf]
  rcases h with h | ⟨h, rfl⟩ <;> rw [h]
  rfl

/-- The rows of a dataset are those of its document. -/
theorem row_ofJson (h : Table.ofJson document = .ok table) {index : Nat} {row : JsonValue}
    (hrow : (document.itemsOf "rows")[index]? = some row) : table.row index = row.toRow := by
  obtain ⟨members, names, rows, rfl, -, hrows, hlengths, rfl⟩ := ofJson_eq_ok_iff.mp h
  rw [itemsOf_rows_of_hasRows hrows, List.getElem?_map] at hrow
  obtain ⟨items, hitems, rfl⟩ := Option.map_eq_some_iff.mp hrow
  have hcells : (rows.map (List.map Value.ofJson))[index]? = some (items.map Value.ofJson) := by
    rw [List.getElem?_map, hitems, Option.map_some]
  have hlength : (items.map Value.ofJson).length ≤ names.length := by
    rw [List.length_map]
    exact hlengths items (List.mem_of_getElem? hitems)
  rw [row_ofRows hcells hlength]
  funext column
  rw [List.getElem?_map]
  rfl

/-- A dataset has as many rows as its document if it has a column, and none if it has no column. -/
theorem rowCount_ofJson (h : Table.ofJson document = .ok table) :
    table.rowCount =
      if document.itemsOf "columns" = [] then 0 else (document.itemsOf "rows").length := by
  obtain ⟨members, names, rows, rfl, hcolumns, hrows, -, rfl⟩ := ofJson_eq_ok_iff.mp h
  have hnames : (JsonValue.object members).itemsOf "columns" = names.map .text := by
    rw [JsonValue.itemsOf, hcolumns]
  simp only [hnames, itemsOf_rows_of_hasRows hrows, List.map_eq_nil_iff]
  split
  · rename_i hnone
    rw [hnone]
    exact rowCount_ofRows_nil _
  · rename_i hsome
    rw [rowCount_ofRows hsome, List.length_map, List.length_map]

end Table

/-! ### Checks -/

namespace CheckRequest

/-- What a check does to the table of its document. -/
def call (request : CheckRequest) : TableCall :=
  if request.isScript then .runScript request.formula
  else .addColumn request.name request.formula

theorem runOn_eq_ok_iff {request : CheckRequest} {table after : Table} :
    request.runOn table = .ok after ↔ request.call.run request.options table = .ok () after := by
  have hresult : ∀ {α : Type} {edit : TableEdit α},
      edit.result table = .ok after ↔ ∃ a, edit table = .ok a after := by
    intro α edit
    rw [TableEdit.result]
    cases edit table <;> simp
  rw [runOn, call]
  split
  · rw [Table.executeScript, hresult]
    exact ⟨fun ⟨_, h⟩ ↦ h, fun h ↦ ⟨(), h⟩⟩
  · rw [Table.addCalculatedColumn, hresult, TableCall.run_addColumn_eq_ok_iff]

/-- A check that runs gives the document of the table that it leaves. -/
theorem execute_eq_dataset_iff {request : CheckRequest} {output : JsonValue} :
    request.execute = .ok (.dataset output) ↔
      request.syntaxOnly = false ∧ ∃ text document table after, request.input = some text ∧
        JsonValue.parse? text = some document ∧ Table.ofJson document = .ok table ∧
        request.call.run request.options table = .ok () after ∧ output = after.toJson := by
  rw [execute]
  cases request.syntaxOnly with
  | true =>
    cases request.checkSyntax with
    | _ => simp
  | false =>
    cases request.input with
    | none => simp
    | some text =>
      cases hparse : JsonValue.parse? text with
      | none => simp [hparse]
      | some document =>
        simp only [Bool.false_eq_true, if_false, hparse, bind_eq_ok_iff, mapError_eq_ok_iff,
          runOn_eq_ok_iff, Except.ok.injEq, CheckResult.dataset.injEq]
        constructor
        · rintro ⟨table, htable, after, hafter, rfl⟩
          exact ⟨trivial, text, document, table, after, rfl, hparse, htable, hafter, rfl⟩
        · rintro ⟨-, _, _, table, after, ⟨⟩, hdocument, htable, hafter, rfl⟩
          obtain rfl := Option.some.inj (hparse.symm.trans hdocument)
          exact ⟨table, htable, after, hafter, rfl⟩

end CheckRequest

/-- The rows of the second document are those of the first one in number and order, each as the
function makes it, with a cell for every column of the second document. -/
structure RowsFollow (document output : JsonValue) (behind : Row → Row) : Prop where
  length : (output.itemsOf "rows").length = (document.itemsOf "rows").length
  row : ∀ (index : Nat) (row : JsonValue), (document.itemsOf "rows")[index]? = some row →
    (output.itemsOf "rows")[index]? = some (.array
      ((List.range (output.itemsOf "columns").length).map fun column ↦
        (behind row.toRow column).toJson))

/-- A check that runs has a dataset as its document, and every row of its result has a cell for each
column of the result. If the document has a column, its rows and those of the result are the same in
number and order: each row of the result is what the formula or script makes of the row of the
document at its place. If the document has no column, the result has no rows. -/
theorem execute_rows {request : CheckRequest} {output : JsonValue}
    (h : request.execute = .ok (.dataset output)) :
    ∃ text document table plan, request.input = some text ∧
      JsonValue.parse? text = some document ∧ Table.ofJson document = .ok table ∧
      request.call.plan table = .ok plan ∧
      (document.itemsOf "columns" ≠ [] →
        RowsFollow document output (plan.rowBehind table.width)) ∧
      (document.itemsOf "columns" = [] → output.itemsOf "rows" = []) ∧
      ∀ row ∈ output.itemsOf "rows",
        ∃ items, row = .array items ∧ items.length = (output.itemsOf "columns").length := by
  obtain ⟨-, text, document, table, after, hinput, hparse, htable, hrun, rfl⟩ :=
    CheckRequest.execute_eq_dataset_iff.mp h
  obtain ⟨plan, outputs, hplan, houtputs, hafter⟩ := TableCall.run_eq_ok_iff.mp hrun
  have hcount : after.rowCount = table.rowCount := by
    rw [hafter]
    exact (Table.grows_writeAll (Table.length_of_runRows houtputs) 0 plan.statements).rowCount
  have hwidth : (after.toJson.itemsOf "columns").length = after.width := by
    rw [Table.itemsOf_toJson_columns, List.length_map, List.length_map, Table.width]
  have hrows := Table.rowCount_ofJson htable
  refine ⟨text, document, table, plan, hinput, hparse, htable, hplan, fun hcolumns ↦ ⟨?_, ?_⟩,
    fun hcolumns ↦ ?_, fun row hrow ↦ ?_⟩
  · rw [if_neg hcolumns] at hrows
    rw [Table.itemsOf_toJson_rows, List.length_map, List.length_range, hcount, hrows]
  · intro index row hrow
    rw [if_neg hcolumns] at hrows
    have hindex : index < table.rowCount := by
      rw [hrows]
      exact (List.getElem?_eq_some_iff.mp hrow).1
    rw [Table.itemsOf_toJson_rows, List.getElem?_map, List.getElem?_range (hcount ▸ hindex),
      Option.map_some, hwidth, List.map_map, Table.row_of_run hrun hplan hindex,
      Table.row_ofJson htable hrow]
    rfl
  · rw [if_pos hcolumns] at hrows
    rw [Table.itemsOf_toJson_rows, hcount, hrows]
    rfl
  · rw [Table.itemsOf_toJson_rows] at hrow
    obtain ⟨index, -, rfl⟩ := List.mem_map.mp hrow
    exact ⟨_, rfl, by rw [List.length_map, List.length_map, List.length_range, hwidth]⟩

/-- Three rows stay three rows, two that fail and an empty one. -/
theorem execute_rows_ragged :
    let request : CheckRequest := ⟨"B = A + 1 > 1; NEW('c') = B",
      some "\x7b\"columns\":[\"A\",\"B\"],\"rows\":[[\"x\"],[true,false],[]]\x7d",
      defaultColumnName, true, false, ⟨false, 0, .nil⟩⟩
    let document : JsonValue := .object [("columns", .array [.text "A", .text "B"]),
      ("rows", .array [.array [.text "x"], .array [.boolean true, .boolean false], .array []])]
    let output : JsonValue := .object [("columns", .array [.text "A", .text "B", .text "c"]),
      ("rows", .array [.array [.text "x", .null, .null], .array [.boolean true, .null, .null],
        .array [.null, .boolean false, .boolean false]])]
    request.execute = .ok (.dataset output) ∧
      (output.itemsOf "rows").length = (document.itemsOf "rows").length := by
  intro request document output
  let table : Table := ⟨[⟨"A", [.text "x", .boolean true, .nil]⟩,
    ⟨"B", [.nil, .boolean false, .nil]⟩]⟩
  let after : Table := ⟨[⟨"A", [.text "x", .boolean true, .nil]⟩,
    ⟨"B", [.nil, .nil, .boolean false]⟩, ⟨"c", [.nil, .nil, .boolean false]⟩]⟩
  have hparse : JsonValue.parse?
      "\x7b\"columns\":[\"A\",\"B\"],\"rows\":[[\"x\"],[true,false],[]]\x7d" = some document := by
    cbv
  have hrun : request.runOn table = .ok after := by decide +kernel
  have h : request.execute = .ok (.dataset output) :=
    CheckRequest.execute_eq_dataset_iff.mpr ⟨rfl, _, document, table, after, rfl, hparse, rfl,
      CheckRequest.runOn_eq_ok_iff.mp hrun, rfl⟩
  obtain ⟨text, found, _, _, hinput, hfound, -, -, hrows, -⟩ := execute_rows h
  obtain rfl := Option.some.inj hinput
  obtain rfl := Option.some.inj (hparse.symm.trans hfound)
  exact ⟨h, (hrows nofun).length⟩

/-- Two rows of a document without columns are not in the table, and none is in the result. -/
theorem execute_rows_without_columns :
    let request : CheckRequest := ⟨"1", some "\x7b\"columns\":[],\"rows\":[[],[]]\x7d",
      defaultColumnName, false, false, .standard⟩
    let document : JsonValue :=
      .object [("columns", .array []), ("rows", .array [.array [], .array []])]
    let output : JsonValue :=
      .object [("columns", .array [.text "result"]), ("rows", .array [])]
    JsonValue.parse? "\x7b\"columns\":[],\"rows\":[[],[]]\x7d" = some document ∧
      request.execute = .ok (.dataset output) ∧
      (output.itemsOf "rows").length ≠ (document.itemsOf "rows").length := by
  intro request document output
  have hparse :
      JsonValue.parse? "\x7b\"columns\":[],\"rows\":[[],[]]\x7d" = some document := by
    cbv
  have hrun : request.runOn ⟨[]⟩ = .ok ⟨[⟨"result", []⟩]⟩ := by decide +kernel
  have h : request.execute = .ok (.dataset output) :=
    CheckRequest.execute_eq_dataset_iff.mpr ⟨rfl, _, document, ⟨[]⟩, _, rfl, hparse, rfl,
      CheckRequest.runOn_eq_ok_iff.mp hrun, rfl⟩
  exact ⟨hparse, h, nofun⟩

end ColumnFormula
