import ColumnFormula.Proofs.Table.Names

/-!
# Runs of calls

Calls on one table may follow each other in any number, and each of them may succeed or fail. No
call moves or renames a column or changes the number of rows, and a column that has a cell for every
row keeps one (`Table.Grows`). A single write does none of this (`Table.grows_write`), so neither
does a call (`Table.grows_afterCall`) or a run of calls (`Table.grows_afterCalls`). New columns have
free names, so distinct names stay distinct over a whole run (`Table.namesDistinct_afterCalls`), and
a name that is found once is found at the same place ever after. `afterCalls_stable` puts this
together with the number of columns that each call appends.
-/

set_option autoImplicit false
set_option relaxedAutoImplicit false

namespace ColumnFormula

namespace Table

/-! ### What no call changes -/

/-- The column at a place has a cell for every row. -/
def IsFull (table : Table) (index : Nat) : Prop :=
  (table.columns[index]?).map (·.cells.length) = some table.rowCount

/-- The second table has the columns of the first one at their places and under their names, as
many rows, and a cell for every row where the first table has one. -/
structure Grows (before after : Table) : Prop where
  names : before.columns.map Column.name <+: after.columns.map Column.name
  rowCount : after.rowCount = before.rowCount
  full : ∀ index, before.IsFull index → after.IsFull index

theorem Grows.refl (table : Table) : table.Grows table :=
  ⟨List.prefix_rfl, rfl, fun _ h ↦ h⟩

theorem Grows.trans {first second third : Table} (hfirst : first.Grows second)
    (hsecond : second.Grows third) : first.Grows third :=
  ⟨hfirst.names.trans hsecond.names, hsecond.rowCount.trans hfirst.rowCount,
    fun index h ↦ hsecond.full index (hfirst.full index h)⟩

variable {table after : Table}

theorem IsFull.lt_width {index : Nat} (h : table.IsFull index) : index < table.width := by
  obtain ⟨column, hcolumn, -⟩ := Option.map_eq_some_iff.mp h
  exact (List.getElem?_eq_some_iff.mp hcolumn).1

/-- A write of one cell for every row. -/
theorem grows_write {cells : List Value} (hcells : cells.length = table.rowCount)
    (statement : Statement BoundColumn) : table.Grows (table.write statement cells) where
  names := by
    rw [names_write]
    exact List.prefix_append _ _
  rowCount := rowCount_write hcells statement
  full index hfull := by
    unfold IsFull
    rw [rowCount_write hcells]
    by_cases hwritten : statement.column? table.width = some index
    · have htarget : ∀ target value, statement = .assign target value →
          target.index < table.width := by
        rintro target value rfl
        obtain rfl := Option.some.inj hwritten
        exact hfull.lt_width
      obtain ⟨column, hcolumn, hnew⟩ :=
        Option.map_eq_some_iff.mp (cells_write hwritten htarget cells)
      rw [hcolumn, Option.map_some, hnew, hcells]
    · rw [getElem?_write_of_ne hwritten]
      exact hfull

theorem grows_writeAll {outputs : List (List Value)} (houtputs : outputs.length = table.rowCount)
    (k : Nat) (statements : List (Statement BoundColumn)) :
    table.Grows (table.writeAll outputs k statements) := by
  induction statements generalizing table k with
  | nil => exact .refl table
  | cons statement rest ih =>
    have hfirst : table.Grows
        (table.write statement (outputs.map fun values ↦ (values[k]?).getD .nil)) :=
      grows_write (by rw [List.length_map, houtputs]) statement
    exact hfirst.trans (ih (houtputs.trans hfirst.rowCount.symm) (k + 1))

/-- A column that a script writes has a cell for every row. -/
theorem isFull_writeAll {outputs : List (List Value)} (houtputs : outputs.length = table.rowCount)
    {statements : List (Statement BoundColumn)} (htargets : TargetsWithin table.width statements)
    {place index : Nat} (hwritten : writtenColumn? table.width statements place = some index) :
    (table.writeAll outputs 0 statements).IsFull index := by
  obtain ⟨last, hlast⟩ := exists_lastWrite hwritten
  have hcells := cells_writeAll_of_lastWrite htargets hlast outputs 0
  obtain ⟨column, hcolumn, hcells⟩ := Option.map_eq_some_iff.mp hcells
  rw [IsFull, hcolumn, Option.map_some, hcells, List.length_map,
    (grows_writeAll houtputs 0 statements).rowCount, houtputs]

/-- Evaluating all rows gives one result for each. -/
theorem length_of_runRows {α : Type} [Inhabited α] {options : EvalOptions}
    {evaluate : Row → Except EvalError α} {fallback : α} {results : List α}
    (h : table.runRows options evaluate fallback = .ok results) :
    results.length = table.rowCount := by
  rw [runRows_eq_evaluateInOrder, evaluateInOrder_eq_ok_iff] at h
  obtain ⟨value, -, rfl⟩ := h
  rw [List.length_map, List.length_range]

/-! ### Calls -/

variable {call : TableCall} {options : EvalOptions}

/-- What a call that succeeds has done: it has bound its statements to the schema of the table and
written one cell for every row for each of them. -/
theorem exists_of_run (h : call.run options table = .ok () after) :
    ∃ statements bound final outputs, call.statements = .ok statements ∧
      bindStatements table.schema statements = .ok (bound, final) ∧
      call.plan table = .ok (TableCall.planOf table.width bound) ∧
      outputs.length = table.rowCount ∧ after = table.writeAll outputs 0 bound := by
  obtain ⟨plan, outputs, hplan, houtputs, rfl⟩ := TableCall.run_eq_ok_iff.mp h
  obtain ⟨statements, bound, final, hstatements, hbound, rfl⟩ := TableCall.plan_eq_ok_iff.mp hplan
  exact ⟨statements, bound, final, outputs, hstatements, hbound, hplan,
    length_of_runRows houtputs, rfl⟩

/-- The table behind a call, whether it succeeds or fails. -/
def afterCall (table : Table) (call : TableCall × EvalOptions) : Table :=
  match call.1.run call.2 table with
  | .ok _ after => after
  | .error _ after => after

/-- The table behind calls in order. -/
def afterCalls (table : Table) (calls : List (TableCall × EvalOptions)) : Table :=
  calls.foldl afterCall table

theorem grows_afterCall (table : Table) (call : TableCall × EvalOptions) :
    table.Grows (table.afterCall call) := by
  unfold afterCall
  split
  · rename_i after hrun
    obtain ⟨statements, bound, final, outputs, -, -, -, houtputs, rfl⟩ := exists_of_run hrun
    exact grows_writeAll houtputs 0 bound
  · rename_i error after hrun
    obtain ⟨rfl, -⟩ := TableCall.run_eq_error_iff.mp hrun
    exact .refl _

theorem grows_afterCalls (table : Table) (calls : List (TableCall × EvalOptions)) :
    table.Grows (table.afterCalls calls) := by
  induction calls generalizing table with
  | nil => exact .refl table
  | cons call rest ih => exact (table.grows_afterCall call).trans (ih (table.afterCall call))

theorem namesDistinct_afterCall (hnames : NamesDistinct (table.columns.map Column.name))
    (call : TableCall × EvalOptions) :
    NamesDistinct ((table.afterCall call).columns.map Column.name) := by
  unfold afterCall
  split
  · rename_i after hrun
    obtain ⟨statements, bound, final, outputs, -, hbound, -, -, rfl⟩ := exists_of_run hrun
    rw [names_writeAll]
    exact namesDistinct_of_bindStatements hbound hnames
  · rename_i error after hrun
    obtain ⟨rfl, -⟩ := TableCall.run_eq_error_iff.mp hrun
    exact hnames

theorem namesDistinct_afterCalls (hnames : NamesDistinct (table.columns.map Column.name))
    (calls : List (TableCall × EvalOptions)) :
    NamesDistinct ((table.afterCalls calls).columns.map Column.name) := by
  induction calls generalizing table with
  | nil => exact hnames
  | cons call rest ih => exact ih (namesDistinct_afterCall hnames call)

/-! ### Names and widths -/

/-- A column that is found by its name is found at the same place in every table that grows from
this one. -/
theorem columnByName?_of_grows {name : String} {index : Nat}
    (hlookup : table.schema.lookup name = some index) (hindex : index < table.width)
    (hgrows : table.Grows after) :
    ∃ column, after.columns[index]? = some column ∧ after.columnByName? name = some column := by
  have hlater : after.schema.lookup name = some index :=
    Schema.lookup_ofNames_of_prefix hgrows.names hlookup
  have hwidth : table.width ≤ after.width := by simpa [width] using hgrows.names.length_le
  have hcolumn := List.getElem?_eq_getElem (Nat.lt_of_lt_of_le hindex hwidth)
  refine ⟨_, hcolumn, ?_⟩
  rw [columnByName?, hlater, Option.bind_some, hcolumn]

end Table

theorem Statement.isSome_newName?_of_bind {schema : Schema} {statement : Statement Reference}
    {bound : Statement BoundColumn} (h : statement.bind schema = .ok bound) :
    bound.newName?.isSome = statement.isNewColumn := by
  cases Statement.bound_of_bind h <;> rfl

/-- A script appends one column for each of its statements that ask for one. -/
theorem length_newNames_of_bindStatements {schema final : Schema}
    {statements : List (Statement Reference)} {bound : List (Statement BoundColumn)}
    (h : bindStatements schema statements = .ok (bound, final)) :
    (bound.filterMap Statement.newName?).length =
      (statements.filter (·.isNewColumn)).length := by
  induction statements generalizing schema bound with
  | nil =>
    cases h
    rfl
  | cons statement rest ih =>
    obtain ⟨first, others, hfirst, hothers, rfl⟩ := bindStatements_cons_eq_ok_iff.mp h
    have hnew := Statement.isSome_newName?_of_bind hfirst
    rw [List.filterMap_cons, List.filter_cons, ← hnew]
    cases first.newName? <;> simp [ih hothers]

namespace Table

variable {table after : Table} {call : TableCall} {options : EvalOptions}

theorem width_of_run (h : call.run options table = .ok () after) :
    ∃ statements, call.statements = .ok statements ∧
      after.width = table.width + (statements.filter (·.isNewColumn)).length := by
  obtain ⟨statements, bound, final, outputs, hstatements, hbound, -, -, rfl⟩ := exists_of_run h
  refine ⟨statements, hstatements, ?_⟩
  have hnames := congrArg List.length (names_writeAll table outputs 0 bound)
  rw [List.length_map, List.length_append, List.length_map,
    length_newNames_of_bindStatements hbound] at hnames
  exact hnames

/-- A call leaves every column that it writes with a cell for every row. -/
theorem isFull_of_run (h : call.run options table = .ok () after) {plan : Plan}
    (hplan : call.plan table = .ok plan) {place index : Nat}
    (hwritten : writtenColumn? table.width plan.statements place = some index) :
    after.IsFull index := by
  obtain ⟨statements, bound, final, outputs, -, -, hbound, houtputs, rfl⟩ := exists_of_run h
  have htargets := TableCall.targetsWithin_of_plan hbound
  obtain rfl := Except.ok.inj (hbound.symm.trans hplan)
  exact isFull_writeAll houtputs htargets hwritten

end Table

/-- On a table with distinct names, unnamed columns apart, calls may follow each other in any number
with any outcome. At every time the names are distinct and the table has as many rows as at the
start; every column keeps its place and its name; a call that fails changes nothing; a call that
succeeds appends one column for each new column it states, and the columns that it writes have one
cell for every row from then on; and a name that is found once is found at the same place ever
after. -/
theorem afterCalls_stable (start : Table)
    (hnames : NamesDistinct (start.columns.map Column.name))
    (earlier : List (TableCall × EvalOptions)) :
    let table := start.afterCalls earlier
    NamesDistinct (table.columns.map Column.name) ∧
    table.rowCount = start.rowCount ∧
    (∀ later (index : Nat) (column : Column), table.columns[index]? = some column →
      ((table.afterCalls later).columns[index]?).map Column.name = some column.name) ∧
    (∀ (call : TableCall) options error after,
      call.run options table = .error error after → after = table) ∧
    (∀ name formula options after,
      (TableCall.addColumn name formula).run options table = .ok () after →
        after.width = table.width + 1) ∧
    (∀ script options after, (TableCall.runScript script).run options table = .ok () after →
      ∃ statements, compileScript script = .ok statements ∧
        after.width = table.width + (statements.filter (·.isNewColumn)).length) ∧
    (∀ (call : TableCall) options after, call.run options table = .ok () after →
      ∃ plan, call.plan table = .ok plan ∧
        ∀ place index, writtenColumn? table.width plan.statements place = some index →
          ∀ later, ((after.afterCalls later).columns[index]?).map (·.cells.length) =
            some start.rowCount) ∧
    (∀ name (column : Column), name ≠ "" → table.columnByName? name = some column →
      ∃ index : Nat, table.columns[index]? = some column ∧
        ∀ later, ∃ current, (table.afterCalls later).columns[index]? = some current ∧
          (table.afterCalls later).columnByName? name = some current) := by
  intro table
  have hrows : table.rowCount = start.rowCount := (start.grows_afterCalls earlier).rowCount
  refine ⟨Table.namesDistinct_afterCalls hnames earlier, hrows, ?_, ?_, ?_, ?_, ?_, ?_⟩
  · intro later index column hcolumn
    have hname : (table.columns.map Column.name)[index]? = some column.name := by
      rw [List.getElem?_map, hcolumn, Option.map_some]
    obtain ⟨hindex, hname⟩ := List.getElem?_eq_some_iff.mp hname
    rw [← List.getElem?_map, ← hname]
    exact List.prefix_iff_getElem?.mp (table.grows_afterCalls later).names index hindex
  · intro call options error after h
    exact (TableCall.run_eq_error_iff.mp h).1
  · intro name formula options after h
    obtain ⟨statements, hstatements, hwidth⟩ := Table.width_of_run h
    obtain ⟨e, -, rfl⟩ := map_eq_ok_iff.mp hstatements
    exact hwidth
  · intro script options after h
    obtain ⟨statements, hstatements, hwidth⟩ := Table.width_of_run h
    exact ⟨statements, mapError_eq_ok_iff.mp hstatements, hwidth⟩
  · intro call options after h
    obtain ⟨statements, bound, final, outputs, -, -, hplan, -, -⟩ := Table.exists_of_run h
    refine ⟨_, hplan, fun place index hwritten later ↦ ?_⟩
    have hfull := (after.grows_afterCalls later).full index (Table.isFull_of_run h hplan hwritten)
    have hafter : table.afterCall (call, options) = after := by rw [Table.afterCall, h]
    have hgrows := table.grows_afterCall (call, options)
    rw [hafter] at hgrows
    rw [Table.IsFull, (after.grows_afterCalls later).rowCount, hgrows.rowCount, hrows] at hfull
    exact hfull
  · intro name column _ hcolumn
    obtain ⟨index, hindex, hplace⟩ := Option.bind_eq_some_iff.mp hcolumn
    refine ⟨index, hplace, fun later ↦ ?_⟩
    exact Table.columnByName?_of_grows hindex (List.getElem?_eq_some_iff.mp hplace).1
      (table.grows_afterCalls later)

/-- Two unnamed columns and a short one, which a failed script leaves alone and a later one
fills. -/
theorem afterCalls_stable_ragged :
    let start : Table := ⟨[⟨"", [.nil, .text "2"]⟩, ⟨"Qty", [.number (.ofNat 1)]⟩, ⟨"", []⟩]⟩
    let calls : List (TableCall × EvalOptions) :=
      [(.addColumn "Total" "Qty + 1", .standard),
        (.runScript "Qty = 2; NEW('Total') = 1", .standard),
        (.runScript "Qty = 2; NEW('') = Qty", .standard)]
    let table := start.afterCalls calls
    NamesDistinct (start.columns.map Column.name) ∧
      NamesDistinct (table.columns.map Column.name) ∧ table.rowCount = 2 := by
  intro start calls table
  have hstart : NamesDistinct (start.columns.map Column.name) := by decide
  obtain ⟨hnames, hrows, -⟩ := afterCalls_stable start hstart calls
  exact ⟨hstart, hnames, hrows⟩

end ColumnFormula
