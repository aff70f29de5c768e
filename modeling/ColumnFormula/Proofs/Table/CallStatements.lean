import ColumnFormula.Proofs.Table.Calls

/-!
# The statements of a call

Adding a calculated column is running one statement, which appends the column. So every call stands
for a list of statements (`TableCall.statements`), and its plan is what binding them in order and
running them on each row gives (`TableCall.plan_eq_ok_iff`). What holds of all scripts that bind
holds of both calls.
-/

set_option autoImplicit false
set_option relaxedAutoImplicit false

namespace ColumnFormula

/-! ### One new column -/

/-- A new column binds if its name is free and its value binds. -/
theorem Statement.bind_newColumn_eq_ok_iff {schema : Schema} {name : String} {e : Expr Reference}
    {bound : Statement BoundColumn} :
    (Statement.newColumn name e).bind schema = .ok bound ↔
      schema.lookup name = none ∧ ∃ b, e.bind schema = .ok b ∧ .newColumn name b = bound := by
  rw [Statement.bind]
  cases hname : schema.lookup name with
  | some index => simp
  | none => simp [map_eq_ok_iff]

/-- One new column is run by evaluating its value on the row. -/
theorem Program.runStatements_newColumn (row : Row) (next : Nat) (name : String)
    (b : Expr BoundColumn) :
    runStatements ⟨row, []⟩ next [.newColumn name b] = (b.eval row).map ([·]) := by
  have hrow : (⟨row, []⟩ : Overlay).row = row := rfl
  rw [runStatements_cons, hrow, Statement.value]
  cases b.eval row <;> rfl

/-! ### Calls -/

namespace TableCall

/-- The statements that a call runs. -/
def statements : TableCall → Except TableError (List (Statement Reference))
  | addColumn name formula =>
    ((compileExpression formula).mapError fun error ↦ .compile (.formula error)).map
      fun e ↦ [.newColumn name e]
  | runScript script => (compileScript script).mapError .compile

/-- The plan of bound statements: they run on a row from the given width. -/
def planOf (width : Nat) (bound : List (Statement BoundColumn)) : Plan :=
  ⟨bound, fun row ↦ Program.runStatements ⟨row, []⟩ width bound⟩

/-- The plan of a call comes from binding its statements to the schema of the table. -/
theorem plan_eq_ok_iff {call : TableCall} {table : Table} {result : Plan} :
    call.plan table = .ok result ↔
      ∃ statements bound final, call.statements = .ok statements ∧
        bindStatements table.schema statements = .ok (bound, final) ∧
        result = planOf table.width bound := by
  cases call with
  | addColumn name formula =>
    have hsingle : ∀ b : Expr BoundColumn, planOf table.width [.newColumn name b] =
        ⟨[.newColumn name b], fun row ↦ (b.eval row).map ([·])⟩ := fun b ↦
      congrArg (Plan.mk _) (funext fun row ↦
        Program.runStatements_newColumn row table.width name b)
    rw [plan, statements]
    simp only [map_eq_ok_iff, mapError_eq_ok_iff]
    constructor
    · intro h
      split at h
      · cases h
      · rename_i hname
        obtain ⟨e, he, hrest⟩ := bind_eq_ok_iff.mp h
        obtain ⟨b, hb, hresult⟩ := bind_eq_ok_iff.mp hrest
        obtain rfl := Except.ok.inj hresult
        have hfirst : (Statement.newColumn name e).bind table.schema = .ok (.newColumn name b) :=
          Statement.bind_newColumn_eq_ok_iff.mpr
            ⟨by simpa using hname, b, mapError_eq_ok_iff.mp hb, rfl⟩
        have hbound : bindStatements table.schema [.newColumn name e] =
            .ok ([.newColumn name b], table.schema.push name) :=
          bindStatements_cons_eq_ok_iff.mpr ⟨_, [], hfirst, rfl, rfl⟩
        exact ⟨_, _, _, ⟨e, mapError_eq_ok_iff.mp he, rfl⟩, hbound, (hsingle b).symm⟩
    · rintro ⟨_, bound, final, ⟨e, he, rfl⟩, hbound, rfl⟩
      obtain ⟨first, others, hfirst, hothers, rfl⟩ := bindStatements_cons_eq_ok_iff.mp hbound
      obtain ⟨hname, b, hb, rfl⟩ := Statement.bind_newColumn_eq_ok_iff.mp hfirst
      cases hothers
      rw [hname, he, hsingle]
      show ((e.bind table.schema).mapError TableError.bind >>= _) = _
      rw [hb]
      rfl
  | runScript script =>
    rw [plan_runScript_eq_ok_iff, statements]
    simp only [mapError_eq_ok_iff]
    have hevaluate : ∀ {statements : List (Statement Reference)} {program : Program},
        Program.bind table.schema statements = .ok program →
        planOf table.width program.statements = ⟨program.statements, program.runRow⟩ := by
      intro statements program hprogram
      refine congrArg (Plan.mk _) (funext fun row ↦ ?_)
      rw [Program.runRow_of_bind hprogram, Table.width_schema]
    constructor
    · rintro ⟨statements, program, hstatements, hprogram, rfl⟩
      obtain ⟨final, hbound, -⟩ := Program.bind_eq_ok_iff.mp hprogram
      exact ⟨statements, _, final, hstatements, hbound, (hevaluate hprogram).symm⟩
    · rintro ⟨statements, bound, final, hstatements, hbound, rfl⟩
      have hprogram : Program.bind table.schema statements = .ok ⟨bound, final.width⟩ :=
        Program.bind_eq_ok_iff.mpr ⟨final, hbound, rfl⟩
      exact ⟨statements, _, hstatements, hprogram, hevaluate hprogram⟩

/-- Every target of a plan lies among the columns that exist when it is assigned. -/
theorem targetsWithin_of_plan {call : TableCall} {table : Table} {result : Plan}
    (h : call.plan table = .ok result) : TargetsWithin table.width result.statements := by
  obtain ⟨statements, bound, final, -, hbound, rfl⟩ := plan_eq_ok_iff.mp h
  have htargets := targetsWithin_of_bindStatements hbound
  rwa [Table.width_schema] at htargets

/-- A row that can be evaluated has one value for each statement. -/
theorem length_of_plan {call : TableCall} {table : Table} {result : Plan}
    (h : call.plan table = .ok result) {row : Row} {values : List Value}
    (hvalues : result.evaluate row = .ok values) : values.length = result.statements.length := by
  obtain ⟨statements, bound, final, -, -, rfl⟩ := plan_eq_ok_iff.mp h
  exact Program.length_of_runStatements hvalues

end TableCall

end ColumnFormula
