import ColumnFormula.Proofs.Table.Calls

/-!
# Scripts statement by statement

The plain reading of a script takes its statements in order: bind one to the schema of the current
table, evaluate it for every row of that table, write its column, and go on with the new table
(`Table.applyStatements`). A script is run in another way: everything is bound first, each row runs
through all statements with an overlay for what they write, and the columns are written last. The
two agree on every table (`executeScript_refines`). The induction is over the statements; its step
says that after one statement the overlay over a row shows what the written table has in that row
(`row_lay`), where new columns are found at the width of the current table and targets inside it.
-/

set_option autoImplicit false
set_option relaxedAutoImplicit false

namespace ColumnFormula

namespace Table

/-! ### One statement after the other -/

/-- One statement on a whole table: bind it to the schema, evaluate it for every row, and write the
cells. -/
def applyStatement (table : Table) (statement : Statement Reference) : Except TableError Table := do
  let bound ← (statement.bind table.schema).mapError .bind
  let cells ← evaluateInOrder
    (fun row ↦ (bound.value.eval (table.row row)).mapError (.row row)) (List.range table.rowCount)
  .ok (table.write bound cells)

/-- Statements in order, each on the table that the one before it leaves. -/
def applyStatements (table : Table) : List (Statement Reference) → Except TableError Table
  | [] => .ok table
  | statement :: rest => do
    let next ← table.applyStatement statement
    next.applyStatements rest

variable {table : Table}

theorem applyStatement_eq_ok_iff {statement : Statement Reference} {after : Table} :
    table.applyStatement statement = .ok after ↔
      ∃ bound value, statement.bind table.schema = .ok bound ∧
        (∀ row < table.rowCount, bound.value.eval (table.row row) = .ok (value row)) ∧
        after = table.write bound ((List.range table.rowCount).map value) := by
  rw [applyStatement, bind_eq_ok_iff]
  simp only [mapError_eq_ok_iff]
  constructor
  · rintro ⟨bound, hbound, h⟩
    obtain ⟨cells, hcells, hafter⟩ := bind_eq_ok_iff.mp h
    obtain ⟨value, hvalue, rfl⟩ := evaluateInOrder_eq_ok_iff.mp hcells
    refine ⟨bound, value, hbound, fun row hrow ↦ ?_, (Except.ok.inj hafter).symm⟩
    exact mapError_eq_ok_iff.mp (hvalue row (List.mem_range.mpr hrow))
  · rintro ⟨bound, value, hbound, hvalue, rfl⟩
    refine ⟨bound, hbound, bind_eq_ok_iff.mpr ⟨_, ?_, rfl⟩⟩
    refine evaluateInOrder_eq_ok_iff.mpr ⟨value, fun row hrow ↦ ?_, rfl⟩
    exact mapError_eq_ok_iff.mpr (hvalue row (List.mem_range.mp hrow))

/-! ### Rows and columns in step -/

/-- Behind a statement the overlay over a row shows the row of the written table. -/
theorem row_lay {statement : Statement BoundColumn} {cells : List Value} {row : Nat} {value : Value}
    (htarget : ∀ target e, statement = .assign target e → target.index < table.width)
    (hcell : cells[row]? = some value) :
    (statement.lay ⟨table.row row, []⟩ table.width value).row =
      (table.write statement cells).row row := by
  cases statement with
  | expression => rfl
  | assign target e =>
    rw [write, row_setCells (htarget target e rfl), hcell]
    exact Overlay.row_set _ _ _
  | newColumn name e =>
    rw [write, row_pushColumn, hcell]
    exact Overlay.row_set _ _ _

/-- A row runs through a script as the row of the written table runs through the rest of it. -/
theorem runStatements_write {statement : Statement BoundColumn}
    {rest : List (Statement BoundColumn)} {value : Nat → Value} {row : Nat}
    (htarget : ∀ target e, statement = .assign target e → target.index < table.width)
    (hrow : row < table.rowCount) :
    let after := table.write statement ((List.range table.rowCount).map value)
    Program.runStatements (statement.lay ⟨table.row row, []⟩ table.width (value row))
        (statement.widthBehind table.width) rest =
      Program.runStatements ⟨after.row row, []⟩ after.width rest := by
  intro after
  have hcell : ((List.range table.rowCount).map value)[row]? = some (value row) := by
    rw [List.getElem?_map, List.getElem?_range hrow]
    rfl
  rw [width_write]
  exact Program.runStatements_congr (row_lay htarget hcell) _ _

/-- The values of later statements are written as if they were all. -/
theorem writeAll_map_cons (table : Table) (first : Nat → Value) (others : Nat → List Value)
    (rows : List Nat) (k : Nat) (statements : List (Statement BoundColumn)) :
    table.writeAll (rows.map fun row ↦ first row :: others row) (k + 1) statements =
      table.writeAll (rows.map others) k statements := by
  induction statements generalizing table k with
  | nil => rfl
  | cons statement rest ih =>
    rw [writeAll, writeAll, ih]
    simp only [List.map_map, Function.comp_def, List.getElem?_cons_succ]

theorem target_lt_of_bind {statement : Statement Reference} {bound : Statement BoundColumn}
    (h : statement.bind table.schema = .ok bound) (target : BoundColumn) (e : Expr BoundColumn)
    (hassign : bound = .assign target e) : target.index < table.width := by
  rw [← width_schema]
  exact Statement.target_lt_of_bind (hassign ▸ h)

/-- All rows run through a script if all can evaluate its first statement and then, in the table
that this writes, run through the rest. -/
theorem forall_runStatements_cons_iff {first : Statement BoundColumn}
    {rest : List (Statement BoundColumn)} {values : Nat → List Value}
    (htarget : ∀ target e, first = .assign target e → target.index < table.width) :
    (∀ row < table.rowCount,
        Program.runStatements ⟨table.row row, []⟩ table.width (first :: rest) = .ok (values row)) ↔
      ∃ (value : Nat → Value) (tails : Nat → List Value),
        (∀ row < table.rowCount, values row = value row :: tails row) ∧
        (∀ row < table.rowCount, first.value.eval (table.row row) = .ok (value row)) ∧
        let after := table.write first ((List.range table.rowCount).map value)
        ∀ row < table.rowCount,
          Program.runStatements ⟨after.row row, []⟩ after.width rest = .ok (tails row) := by
  constructor
  · intro h
    have hrows : ∀ row < table.rowCount,
        values row = (values row).headD .nil :: (values row).tail ∧
        first.value.eval (table.row row) = .ok ((values row).headD .nil) ∧
        Program.runStatements (first.lay ⟨table.row row, []⟩ table.width ((values row).headD .nil))
          (first.widthBehind table.width) rest = .ok (values row).tail := by
      intro row hrow
      obtain ⟨head, tail, hhead, htail, hcons⟩ :=
        Program.runStatements_cons_eq_ok_iff.mp (h row hrow)
      rw [hcons]
      exact ⟨rfl, hhead, htail⟩
    refine ⟨fun row ↦ (values row).headD .nil, fun row ↦ (values row).tail,
      fun row hrow ↦ (hrows row hrow).1, fun row hrow ↦ (hrows row hrow).2.1, ?_⟩
    intro after row hrow
    rw [← runStatements_write htarget hrow]
    exact (hrows row hrow).2.2
  · rintro ⟨value, tails, hcons, hvalue, htails⟩ row hrow
    refine Program.runStatements_cons_eq_ok_iff.mpr
      ⟨value row, tails row, hvalue row hrow, ?_, hcons row hrow⟩
    rw [runStatements_write htarget hrow]
    exact htails row hrow

/-- Writing the values of all rows writes the first one of each and then the others. -/
theorem writeAll_cons {first : Statement BoundColumn} {rest : List (Statement BoundColumn)}
    {values : Nat → List Value} {value : Nat → Value} {tails : Nat → List Value}
    (h : ∀ row < table.rowCount, values row = value row :: tails row) :
    table.writeAll ((List.range table.rowCount).map values) 0 (first :: rest) =
      (table.write first ((List.range table.rowCount).map value)).writeAll
        ((List.range table.rowCount).map tails) 0 rest := by
  have hvalues : (List.range table.rowCount).map values =
      (List.range table.rowCount).map fun row ↦ value row :: tails row :=
    List.map_congr_left fun row hrow ↦ h row (List.mem_range.mp hrow)
  rw [hvalues, writeAll, writeAll_map_cons]
  simp only [List.map_map, Function.comp_def, List.getElem?_cons_zero, Option.getD_some]

/-- Statement by statement and row by row, a list of statements does the same to a table. -/
theorem applyStatements_eq_ok_iff {statements : List (Statement Reference)} {after : Table} :
    table.applyStatements statements = .ok after ↔
      ∃ bound final, ∃ values : Nat → List Value,
        bindStatements table.schema statements = .ok (bound, final) ∧
        (∀ row < table.rowCount,
          Program.runStatements ⟨table.row row, []⟩ table.width bound = .ok (values row)) ∧
        after = table.writeAll ((List.range table.rowCount).map values) 0 bound := by
  induction statements generalizing table with
  | nil =>
    constructor
    · intro h
      exact ⟨[], table.schema, fun _ ↦ [], rfl, fun _ _ ↦ rfl, (Except.ok.inj h).symm⟩
    · rintro ⟨bound, final, values, hbound, -, rfl⟩
      cases hbound
      rfl
  | cons statement rest ih =>
    have hcells : ∀ value : Nat → Value,
        ((List.range table.rowCount).map value).length = table.rowCount := fun value ↦ by simp
    rw [applyStatements, bind_eq_ok_iff]
    constructor
    · rintro ⟨next, hnext, hrest⟩
      obtain ⟨first, value, hfirst, hvalue, rfl⟩ := applyStatement_eq_ok_iff.mp hnext
      obtain ⟨others, final, tails, hothers, htails, rfl⟩ := ih.mp hrest
      rw [rowCount_write (hcells value)] at htails ⊢
      rw [schema_write] at hothers
      exact ⟨first :: others, final, fun row ↦ value row :: tails row,
        bindStatements_cons_eq_ok_iff.mpr ⟨first, others, hfirst, hothers, rfl⟩,
        (forall_runStatements_cons_iff (target_lt_of_bind hfirst)).mpr
          ⟨value, tails, fun _ _ ↦ rfl, hvalue, htails⟩,
        (writeAll_cons fun _ _ ↦ rfl).symm⟩
    · rintro ⟨bound, final, values, hbound, hvalues, rfl⟩
      obtain ⟨first, others, hfirst, hothers, rfl⟩ := bindStatements_cons_eq_ok_iff.mp hbound
      obtain ⟨value, tails, hcons, hvalue, htails⟩ :=
        (forall_runStatements_cons_iff (target_lt_of_bind hfirst)).mp hvalues
      refine ⟨table.write first ((List.range table.rowCount).map value),
        applyStatement_eq_ok_iff.mpr ⟨first, value, hfirst, hvalue, rfl⟩,
        ih.mpr ⟨others, final, tails, by rwa [schema_write], ?_, ?_⟩⟩
      · rwa [rowCount_write (hcells value)]
      · rw [writeAll_cons hcons, rowCount_write (hcells value)]

end Table

/-- Running a script on a table refines the plain reading of the script. When errors end the run, it
succeeds exactly if the script compiles and every statement in turn binds to the current table and
can be evaluated for all its rows, and then the tables are the same; otherwise it fails, and the
table is left as it was. -/
theorem executeScript_refines (table : Table) (script : String) (options : EvalOptions)
    (habort : options.onError = .abort) :
    (∀ after, TableEdit.executeScript script options table = .ok () after ↔
      ∃ statements, compileScript script = .ok statements ∧
        table.applyStatements statements = .ok after) ∧
    ((¬∃ statements after, compileScript script = .ok statements ∧
        table.applyStatements statements = .ok after) →
      ∃ error, TableEdit.executeScript script options table = .error error table) := by
  have hcall : TableEdit.executeScript script options =
      (TableCall.runScript script).run options := rfl
  have hok : ∀ after, TableEdit.executeScript script options table = .ok () after ↔
      ∃ statements, compileScript script = .ok statements ∧
        table.applyStatements statements = .ok after := by
    intro after
    rw [hcall, TableCall.run_eq_ok_iff]
    constructor
    · rintro ⟨plan, outputs, hplan, houtputs, rfl⟩
      obtain ⟨statements, program, hcompile, hbind, rfl⟩ :=
        TableCall.plan_runScript_eq_ok_iff.mp hplan
      obtain ⟨values, hvalues, rfl⟩ := (runRows_abort_eq_ok_iff habort).mp houtputs
      obtain ⟨final, hbound, -⟩ := Program.bind_eq_ok_iff.mp hbind
      refine ⟨statements, hcompile, Table.applyStatements_eq_ok_iff.mpr
        ⟨program.statements, final, values, hbound, fun row hrow ↦ ?_, rfl⟩⟩
      have hrun : program.runRow (table.row row) = .ok (values row) := hvalues row hrow
      rwa [Program.runRow_of_bind hbind, Table.width_schema] at hrun
    · rintro ⟨statements, hcompile, happly⟩
      obtain ⟨bound, final, values, hbound, hvalues, rfl⟩ :=
        Table.applyStatements_eq_ok_iff.mp happly
      let program : Program := ⟨bound, final.width⟩
      have hbind : Program.bind table.schema statements = .ok program :=
        Program.bind_eq_ok_iff.mpr ⟨final, hbound, rfl⟩
      have hrows : ∀ row < table.rowCount,
          program.runRow (table.row row) = .ok (values row) := by
        intro row hrow
        rw [Program.runRow_of_bind hbind, Table.width_schema]
        exact hvalues row hrow
      exact ⟨⟨bound, program.runRow⟩, _,
        TableCall.plan_runScript_eq_ok_iff.mpr ⟨statements, program, hcompile, hbind, rfl⟩,
        (runRows_abort_eq_ok_iff habort).mpr ⟨values, hrows, rfl⟩, rfl⟩
  refine ⟨hok, fun hnone ↦ ?_⟩
  cases hrun : TableEdit.executeScript script options table with
  | ok result after =>
    obtain ⟨statements, hcompile, happly⟩ := (hok after).mp hrun
    exact absurd ⟨statements, after, hcompile, happly⟩ hnone
  | error error after =>
    rw [hcall] at hrun
    obtain ⟨rfl, -⟩ := TableCall.run_eq_error_iff.mp hrun
    exact ⟨error, rfl⟩

/-- A ragged table whose columns are both overwritten and read again through a new column. -/
theorem executeScript_refines_ragged :
    let table : Table := ⟨[⟨"", [.number (.ofNat 1), .text "2"]⟩, ⟨"B", [.nil]⟩]⟩
    let script := "B = A + 1; NEW('c') = B & A; A = c; c"
    EvalOptions.standard.onError = .abort ∧
      ((∀ after, TableEdit.executeScript script .standard table = .ok () after ↔
        ∃ statements, compileScript script = .ok statements ∧
          table.applyStatements statements = .ok after) ∧
      ((¬∃ statements after, compileScript script = .ok statements ∧
          table.applyStatements statements = .ok after) →
        ∃ error, TableEdit.executeScript script .standard table = .error error table)) :=
  ⟨rfl, executeScript_refines _ _ .standard rfl⟩

end ColumnFormula
