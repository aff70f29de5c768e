import ColumnFormula.Proofs.Table.Programs

/-!
# Calls on a table

A call adds a calculated column or runs a script. Both do the same three things: they prepare a
plan, which is what compiling and binding give and reads no cell; they evaluate the plan for every
row; and they write the columns (`TableCall.run_eq`). All failures come before the first write, so a
call that fails leaves the table as it was (`TableCall.run_eq_error_iff`), and a call that
succeeds leaves the table that the writes make of it (`TableCall.run_eq_ok_iff`).
-/

set_option autoImplicit false
set_option relaxedAutoImplicit false

namespace ColumnFormula

/-- The operations that calculate on a table. -/
inductive TableCall where
  /-- Appends a column with the value of a formula for every row. -/
  | addColumn (name formula : String)
  /-- Runs the statements of a script. -/
  | runScript (script : String)

/-- Bound statements, and how they are evaluated for one row: a value for each of them. -/
structure Plan where
  statements : List (Statement BoundColumn)
  evaluate : Row → Except EvalError (List Value)

namespace TableCall

/-- Carries out a call in place. -/
def run (options : EvalOptions) : TableCall → TableEdit Unit
  | addColumn name formula => do
    let _ ← TableEdit.addCalculatedColumn name formula options
  | runScript script => TableEdit.executeScript script options

/-- The plan of a call: the formula or the script, compiled and bound to the schema. -/
def plan (table : Table) : TableCall → Except TableError Plan
  | addColumn name formula =>
    if (table.schema.lookup name).isSome then .error (.duplicateColumn name)
    else do
      let e ← (compileExpression formula).mapError fun error ↦ .compile (.formula error)
      let bound ← (e.bind table.schema).mapError .bind
      .ok ⟨[.newColumn name bound], fun row ↦ (bound.eval row).map ([·])⟩
  | runScript script => do
    let statements ← (compileScript script).mapError .compile
    let program ← (Program.bind table.schema statements).mapError .bind
    .ok ⟨program.statements, program.runRow⟩

/-! ### What a plan is -/

/-- The plan of a script comes from its compiled and bound statements. -/
theorem plan_runScript_eq_ok_iff {table : Table} {script : String} {result : Plan} :
    (runScript script).plan table = .ok result ↔
      ∃ statements program, compileScript script = .ok statements ∧
        Program.bind table.schema statements = .ok program ∧
        result = ⟨program.statements, program.runRow⟩ := by
  rw [plan, bind_eq_ok_iff]
  simp only [mapError_eq_ok_iff]
  constructor
  · rintro ⟨statements, hstatements, h⟩
    obtain ⟨program, hprogram, hresult⟩ := bind_eq_ok_iff.mp h
    exact ⟨statements, program, hstatements, mapError_eq_ok_iff.mp hprogram,
      (Except.ok.inj hresult).symm⟩
  · rintro ⟨statements, program, hstatements, hprogram, rfl⟩
    refine ⟨statements, hstatements, ?_⟩
    rw [hprogram]
    rfl

/-! ### How a call runs -/

theorem ofExcept_bind {α β : Type} (x : Except TableError α) (f : α → TableEdit β)
    (table : Table) :
    (TableEdit.ofExcept x >>= f) table =
      match x with
      | .error error => .error error table
      | .ok a => f a table := by
  cases x <;> rfl

theorem get_bind {β : Type} (f : Table → TableEdit β) (table : Table) :
    ((get : TableEdit Table) >>= f) table = f table table :=
  rfl

/-- A column of single values is written as they are. -/
theorem writeAll_newColumn (table : Table) (name : String) (bound : Expr BoundColumn)
    (cells : List Value) :
    table.writeAll (cells.map ([·])) 0 [.newColumn name bound] =
      table.pushColumn ⟨name, cells⟩ := by
  simp [Table.writeAll, Table.write, Function.comp_def]

/-- A call prepares its plan, evaluates it for every row, and then writes the columns. -/
theorem run_eq (call : TableCall) (options : EvalOptions) (table : Table) :
    call.run options table =
      match call.plan table with
      | .error error => .error error table
      | .ok plan =>
        match table.runRows options plan.evaluate
            (List.replicate plan.statements.length Value.nil) with
        | .error error => .error error table
        | .ok outputs => .ok () (table.writeAll outputs 0 plan.statements) := by
  cases call with
  | addColumn name formula =>
    have hrows : ∀ bound : Expr BoundColumn,
        table.runRows options (fun row ↦ (bound.eval row).map ([·])) [Value.nil] =
          (table.runRows options bound.eval .nil).map (List.map ([·])) :=
      fun bound ↦ runRows_map ([·]) table options bound.eval .nil
    rw [plan, run, TableEdit.addCalculatedColumn]
    by_cases hname : (table.schema.lookup name).isSome
    · rw [if_pos hname, bind_assoc, get_bind, if_pos hname]
      rfl
    · rw [if_neg hname, bind_assoc, get_bind, if_neg hname, bind_assoc, ofExcept_bind]
      cases (compileExpression formula).mapError
          fun error ↦ TableError.compile (.formula error) with
      | error error => rfl
      | ok e =>
        dsimp only
        rw [bind_assoc, ofExcept_bind, ok_bind]
        cases (e.bind table.schema).mapError TableError.bind with
        | error error => rfl
        | ok bound =>
          dsimp only
          rw [bind_assoc, ofExcept_bind, ok_bind]
          dsimp only [List.length_singleton, List.replicate]
          rw [hrows]
          cases table.runRows options bound.eval .nil with
          | error error => rfl
          | ok cells =>
            dsimp only [Except.map]
            rw [writeAll_newColumn]
            rfl
  | runScript script =>
    rw [plan, run, TableEdit.executeScript, get_bind, ofExcept_bind]
    cases (compileScript script).mapError TableError.compile with
    | error error => rfl
    | ok statements =>
      dsimp only
      rw [ofExcept_bind, ok_bind]
      cases (Program.bind table.schema statements).mapError TableError.bind with
      | error error => rfl
      | ok program =>
        dsimp only
        rw [ofExcept_bind, ok_bind]
        dsimp only
        cases table.runRows options program.runRow
            (List.replicate program.statements.length Value.nil) with
        | error error => rfl
        | ok outputs => exact TableEdit.writeAll_apply table outputs 0 program.statements

variable {call : TableCall} {options : EvalOptions} {table after : Table}

/-- A call succeeds if it has a plan and the rows can be evaluated, and then it leaves the table
with all columns written. -/
theorem run_eq_ok_iff :
    call.run options table = .ok () after ↔
      ∃ plan outputs, call.plan table = .ok plan ∧
        table.runRows options plan.evaluate (List.replicate plan.statements.length Value.nil) =
          .ok outputs ∧
        after = table.writeAll outputs 0 plan.statements := by
  rw [run_eq]
  constructor
  · intro h
    split at h
    · cases h
    · rename_i plan hplan
      split at h
      · cases h
      · rename_i outputs houtputs
        cases h
        exact ⟨plan, outputs, hplan, houtputs, rfl⟩
  · rintro ⟨plan, outputs, hplan, houtputs, rfl⟩
    rw [hplan]
    dsimp only
    rw [houtputs]

/-- A call fails before it writes anything: it has no plan, or a row cannot be evaluated. -/
theorem run_eq_error_iff {error : TableError} :
    call.run options table = .error error after ↔
      after = table ∧
        (call.plan table = .error error ∨
          ∃ plan, call.plan table = .ok plan ∧
            table.runRows options plan.evaluate
              (List.replicate plan.statements.length Value.nil) = .error error) := by
  rw [run_eq]
  constructor
  · intro h
    split at h
    · rename_i hplan
      cases h
      exact ⟨rfl, .inl hplan⟩
    · rename_i plan hplan
      split at h
      · rename_i hrows
        cases h
        exact ⟨rfl, .inr ⟨plan, hplan, hrows⟩⟩
      · cases h
  · rintro ⟨rfl, hplan | ⟨plan, hplan, hrows⟩⟩
    · rw [hplan]
    · rw [hplan]
      dsimp only
      rw [hrows]

end TableCall

end ColumnFormula
