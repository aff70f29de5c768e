import ColumnFormula.Proofs.Table.CallStatements

/-!
# What a call may change

Calls on a table are all or nothing (`call_atomic`). A call that fails leaves the table as it was. A
call that succeeds keeps the names and places of all columns, changes no column that is not the
target of an assignment, and appends new columns in the order of their statements (`Table.Extends`).
Its policy only decides about failing rows: where giving up succeeds, writing nil does the same; and
when nil is written for failing rows, a call fails only where its plan does, and such a row is nil
in every column that the call writes, while a row that can be evaluated holds the last value that
its statements give to the column (`Plan.WrittenInto`).
-/

set_option autoImplicit false
set_option relaxedAutoImplicit false

namespace ColumnFormula

/-- The second table has the columns of the first one, at their places and unchanged unless they
are assigned to, and behind them the new columns of the statements in order. -/
structure Table.Extends (before after : Table) (statements : List (Statement BoundColumn)) :
    Prop where
  names : after.columns.map Column.name =
    before.columns.map Column.name ++ statements.filterMap Statement.newName?
  untouched : ∀ index < before.width,
    (∀ target value, .assign target value ∈ statements → target.index ≠ index) →
      after.columns[index]? = before.columns[index]?

/-- The second table holds what the plan gives for the rows of the first one. A column that is
written has a cell for every row. In a row that can be evaluated it is the value of the last
statement that writes the column, in a row that cannot it is nil. -/
structure Plan.WrittenInto (plan : Plan) (before after : Table) : Prop where
  length : ∀ place column, writtenColumn? before.width plan.statements place = some column →
    (after.columns[column]?).map (·.cells.length) = some before.rowCount
  evaluated : ∀ place column, LastWrite before.width plan.statements place column →
    ∀ row < before.rowCount, ∀ values, plan.evaluate (before.row row) = .ok values →
      values[place]? = some (after.row row column)
  failed : ∀ place column, writtenColumn? before.width plan.statements place = some column →
    ∀ row < before.rowCount, ∀ error, plan.evaluate (before.row row) = .error error →
      after.row row column = .nil

namespace Table

/-- Writing the columns of a script extends a table. -/
theorem extends_writeAll (table : Table) (outputs : List (List Value))
    (statements : List (Statement BoundColumn)) :
    table.Extends (table.writeAll outputs 0 statements) statements where
  names := names_writeAll table outputs 0 statements
  untouched index hindex htarget := by
    refine columns_writeAll_of_not_written (fun place hplace ↦ ?_) outputs 0
    obtain ⟨target, value, hmem, heq⟩ := exists_assign_of_writtenColumn? hplace hindex
    exact htarget target value hmem heq

/-- A cell of a column that was written is the value of the last statement for its row. -/
theorem row_writeAll {table : Table} {statements : List (Statement BoundColumn)}
    {place column : Nat} (htargets : TargetsWithin table.width statements)
    (h : LastWrite table.width statements place column) (values : Nat → List Value) {row : Nat}
    (hrow : row < table.rowCount) :
    (table.writeAll ((List.range table.rowCount).map values) 0 statements).row row column =
      ((values row)[place]?).getD .nil := by
  have hcells := cells_writeAll_of_lastWrite htargets h
    ((List.range table.rowCount).map values) 0
  obtain ⟨written, hwritten, hcells⟩ := Option.map_eq_some_iff.mp hcells
  rw [Table.row, hwritten, Option.bind_some, hcells, List.map_map, List.getElem?_map,
    List.getElem?_range hrow, Nat.zero_add]
  rfl

end Table

namespace TableCall

variable {call : TableCall} {options : EvalOptions} {table after : Table}

/-- Where giving up at errors succeeds, no row fails, and writing nil does the same. -/
theorem run_nil_of_run_abort
    (h : call.run { options with onError := .abort } table = .ok () after) :
    call.run { options with onError := .nil } table = .ok () after := by
  obtain ⟨plan, outputs, hplan, houtputs, hafter⟩ := run_eq_ok_iff.mp h
  obtain ⟨values, hvalues, rfl⟩ := (runRows_abort_eq_ok_iff rfl).mp houtputs
  refine run_eq_ok_iff.mpr ⟨plan, _, hplan, ?_, hafter⟩
  rw [runRows_nil rfl]
  refine congrArg Except.ok (List.map_congr_left fun row hrow ↦ ?_)
  rw [hvalues row (List.mem_range.mp hrow)]
  rfl

/-- With nil for failing rows, a call fails only if it has no plan. -/
theorem plan_of_run_nil_error (hnil : options.onError = .nil) {error : TableError}
    (h : call.run options table = .error error after) : call.plan table = .error error := by
  obtain ⟨-, hplan | ⟨plan, -, hrows⟩⟩ := run_eq_error_iff.mp h
  · exact hplan
  · rw [runRows_nil hnil] at hrows
    cases hrows

/-- A plan fails to compile, to bind, or because the name of a column is taken. -/
theorem error_of_plan {error : TableError} (h : call.plan table = .error error) :
    (∃ e, error = .compile e) ∨ (∃ e, error = .bind e) ∨ ∃ name, error = .duplicateColumn name := by
  cases call with
  | addColumn name formula =>
    rw [plan] at h
    split at h
    · exact .inr (.inr ⟨name, (Except.error.inj h).symm⟩)
    · rcases exists_of_bind_eq_error h with h | ⟨e, -, h⟩
      · obtain ⟨d, rfl⟩ := exists_of_mapError_eq_error h
        exact .inl ⟨.formula d, rfl⟩
      · rcases exists_of_bind_eq_error h with h | ⟨bound, -, h⟩
        · exact .inr (.inl (exists_of_mapError_eq_error h))
        · cases h
  | runScript script =>
    rcases exists_of_bind_eq_error h with h | ⟨statements, -, h⟩
    · exact .inl (exists_of_mapError_eq_error h)
    · rcases exists_of_bind_eq_error h with h | ⟨program, -, h⟩
      · exact .inr (.inl (exists_of_mapError_eq_error h))
      · cases h

/-- With nil for failing rows, a call writes the values of its plan. -/
theorem writtenInto_of_run_nil (hnil : options.onError = .nil)
    (h : call.run options table = .ok () after) :
    ∃ plan, call.plan table = .ok plan ∧ plan.WrittenInto table after := by
  obtain ⟨plan, outputs, hplan, houtputs, rfl⟩ := run_eq_ok_iff.mp h
  rw [runRows_nil hnil] at houtputs
  obtain rfl := Except.ok.inj houtputs
  have htargets := targetsWithin_of_plan hplan
  refine ⟨plan, hplan, ?_, ?_, ?_⟩
  · intro place column hwritten
    obtain ⟨last, hlast⟩ := exists_lastWrite hwritten
    have hcells := Table.cells_writeAll_of_lastWrite htargets hlast
      ((List.range table.rowCount).map fun row ↦ (plan.evaluate (table.row row)).toOption.getD
        (List.replicate plan.statements.length .nil)) 0
    obtain ⟨written, hcolumn, hcells⟩ := Option.map_eq_some_iff.mp hcells
    rw [hcolumn, Option.map_some, hcells, List.length_map, List.length_map, List.length_range]
  · intro place column hlast row hrow values hvalues
    have hplace : place < values.length := by
      rw [length_of_plan hplan hvalues]
      exact lt_length_of_writtenColumn? hlast.1
    rw [Table.row_writeAll htargets hlast _ hrow, hvalues, List.getElem?_eq_getElem hplace]
    exact congrArg some (by simp [Except.toOption, hplace])
  · intro place column hwritten row hrow error herror
    obtain ⟨last, hlast⟩ := exists_lastWrite hwritten
    rw [Table.row_writeAll htargets hlast _ hrow, herror]
    have hplace := lt_length_of_writtenColumn? hlast.1
    simp [Except.toOption, hplace]

end TableCall

/-- Calls on a table are atomic and touch only what they should. -/
theorem call_atomic (call : TableCall) (table : Table) (options : EvalOptions) :
    (∀ error after, call.run options table = .error error after → after = table) ∧
    (∀ after, call.run options table = .ok () after →
      ∃ plan, call.plan table = .ok plan ∧ table.Extends after plan.statements) ∧
    (∀ after, call.run { options with onError := .abort } table = .ok () after →
      call.run { options with onError := .nil } table = .ok () after) ∧
    (options.onError = .nil →
      (∀ error after, call.run options table = .error error after →
        call.plan table = .error error ∧
          ((∃ e, error = .compile e) ∨ (∃ e, error = .bind e) ∨
            ∃ name, error = .duplicateColumn name)) ∧
      ∀ after, call.run options table = .ok () after →
        ∃ plan, call.plan table = .ok plan ∧ plan.WrittenInto table after) := by
  refine ⟨fun error after h ↦ (TableCall.run_eq_error_iff.mp h).1, fun after h ↦ ?_,
    fun after ↦ TableCall.run_nil_of_run_abort, fun hnil ↦ ⟨fun error after h ↦ ?_, fun after ↦ ?_⟩⟩
  · obtain ⟨plan, outputs, hplan, -, rfl⟩ := TableCall.run_eq_ok_iff.mp h
    exact ⟨plan, hplan, table.extends_writeAll outputs plan.statements⟩
  · have hplan := TableCall.plan_of_run_nil_error hnil h
    exact ⟨hplan, TableCall.error_of_plan hplan⟩
  · exact TableCall.writtenInto_of_run_nil hnil

end ColumnFormula
