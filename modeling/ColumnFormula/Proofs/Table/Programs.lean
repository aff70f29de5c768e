import ColumnFormula.Proofs.Table.Rows
import ColumnFormula.Proofs.Table.Writing

/-!
# Running programs

What binding a script and running it on one row give. Binding puts every target among the columns
that exist when its statement is run (`targetsWithin_of_bindStatements`), and counting the new
columns off the final width leaves the width that the script started from, so a program runs as its
statements do from there (`runRow_of_bind`). A run sees the row only through the overlay
(`runStatements_congr`), and it takes one step per statement (`runStatements_cons`). Whether there
is a run at all is up to the width alone (`evaluateRow_of_le`, `evaluateRow_of_lt`), and the width
is no obstacle where the rows are those of a table (`evaluateRow_of_inMemory`).
-/

set_option autoImplicit false
set_option relaxedAutoImplicit false

namespace ColumnFormula

/-! ### Binding -/

theorem Schema.index_columnAt (schema : Schema) (index : Nat) (written : String) :
    (schema.columnAt index written).index = index := by
  unfold Schema.columnAt
  split <;> rfl

theorem Schema.lt_width_of_lookup {schema : Schema} {name : String} {index : Nat}
    (h : schema.lookup name = some index) : index < schema.width := by
  unfold lookup at h
  split at h
  · cases h
  · obtain ⟨entry, hentry, rfl⟩ := Option.map_eq_some_iff.mp h
    exact schema.lt_width entry (List.mem_of_find?_eq_some hentry)

/-- A reference resolves to a column of the schema. -/
theorem Schema.index_lt_of_resolve {schema : Schema} {reference : Reference}
    {column : BoundColumn} (h : schema.resolve reference = .ok column) :
    column.index < schema.width := by
  have hname : ∀ {name : String}, schema.resolveName name = .ok column →
      column.index < schema.width := by
    intro name hresolve
    unfold Schema.resolveName at hresolve
    split at hresolve
    · split at hresolve
      · rename_i hlt
        obtain rfl := Except.ok.inj hresolve
        rw [Schema.index_columnAt]
        exact hlt
      · cases hresolve
    · cases hresolve
  have hindex : ∀ {index : Nat}, schema.resolveIndex index = .ok column →
      column.index < schema.width := by
    intro index hresolve
    unfold Schema.resolveIndex at hresolve
    split at hresolve
    · rename_i hlt
      obtain rfl := Except.ok.inj hresolve
      rw [Schema.index_columnAt]
      exact hlt
    · cases hresolve
  cases reference with
  | identifier name => exact hname h
  | columnName name => exact hname h
  | columnIndex index => exact hindex h
  | bound column => exact hindex h

/-- What a statement that binds is made of. -/
inductive Statement.Bound (schema : Schema) : Statement Reference → Statement BoundColumn → Prop
  | expression {e : Expr Reference} {b : Expr BoundColumn} (hvalue : e.bind schema = .ok b) :
      Bound schema (.expression e) (.expression b)
  | assign {reference : Reference} {target : BoundColumn} {e : Expr Reference}
      {b : Expr BoundColumn} (htarget : schema.resolve reference = .ok target)
      (hvalue : e.bind schema = .ok b) : Bound schema (.assign reference e) (.assign target b)
  | newColumn {name : String} {e : Expr Reference} {b : Expr BoundColumn}
      (hname : schema.lookup name = none) (hvalue : e.bind schema = .ok b) :
      Bound schema (.newColumn name e) (.newColumn name b)

theorem Statement.bound_of_bind {schema : Schema} {statement : Statement Reference}
    {bound : Statement BoundColumn} (h : statement.bind schema = .ok bound) :
    Statement.Bound schema statement bound := by
  cases statement with
  | expression e =>
    obtain ⟨b, hb, rfl⟩ := map_eq_ok_iff.mp h
    exact .expression hb
  | assign reference e =>
    obtain ⟨target, htarget, hrest⟩ := bind_eq_ok_iff.mp h
    obtain ⟨b, hb, hassign⟩ := bind_eq_ok_iff.mp hrest
    cases hassign
    exact .assign htarget hb
  | newColumn name e =>
    rw [Statement.bind] at h
    split at h
    · cases h
    · rename_i hname
      obtain ⟨b, hb, rfl⟩ := map_eq_ok_iff.mp h
      exact .newColumn (by simpa using hname) hb

/-- The target of a bound assignment is a column of the schema. -/
theorem Statement.target_lt_of_bind {schema : Schema} {statement : Statement Reference}
    {target : BoundColumn} {value : Expr BoundColumn}
    (h : statement.bind schema = .ok (.assign target value)) : target.index < schema.width := by
  cases Statement.bound_of_bind h with
  | assign htarget _ => exact Schema.index_lt_of_resolve htarget

theorem bindStatements_cons_eq_ok_iff {schema final : Schema} {statement : Statement Reference}
    {rest : List (Statement Reference)} {bound : List (Statement BoundColumn)} :
    bindStatements schema (statement :: rest) = .ok (bound, final) ↔
      ∃ first others, statement.bind schema = .ok first ∧
        bindStatements (first.extend schema) rest = .ok (others, final) ∧
        bound = first :: others := by
  rw [bindStatements, bind_eq_ok_iff]
  constructor
  · rintro ⟨first, hfirst, h⟩
    obtain ⟨⟨others, width⟩, hothers, hbound⟩ := bind_eq_ok_iff.mp h
    cases hbound
    exact ⟨first, others, hfirst, hothers, rfl⟩
  · rintro ⟨first, others, hfirst, hothers, rfl⟩
    refine ⟨first, hfirst, ?_⟩
    rw [hothers]
    rfl

/-- Every target of a bound script lies among the columns that exist when it is assigned. -/
theorem targetsWithin_of_bindStatements {schema final : Schema}
    {statements : List (Statement Reference)} {bound : List (Statement BoundColumn)}
    (h : bindStatements schema statements = .ok (bound, final)) :
    TargetsWithin schema.width bound := by
  induction statements generalizing schema bound with
  | nil =>
    cases h
    exact trivial
  | cons statement rest ih =>
    obtain ⟨first, others, hfirst, hothers, rfl⟩ := bindStatements_cons_eq_ok_iff.mp h
    refine ⟨fun target value hassign ↦ Statement.target_lt_of_bind (hassign ▸ hfirst), ?_⟩
    have hrest := ih hothers
    rwa [Statement.width_extend] at hrest

/-- The final width is the first one and the number of new columns. -/
theorem width_of_bindStatements {schema final : Schema} {statements : List (Statement Reference)}
    {bound : List (Statement BoundColumn)}
    (h : bindStatements schema statements = .ok (bound, final)) :
    final.width = schema.width + (bound.filter (·.isNewColumn)).length := by
  induction statements generalizing schema bound with
  | nil =>
    cases h
    rfl
  | cons statement rest ih =>
    obtain ⟨first, others, hfirst, hothers, rfl⟩ := bindStatements_cons_eq_ok_iff.mp h
    rw [ih hothers, Statement.width_extend]
    cases first with
    | expression => rfl
    | assign => rfl
    | newColumn =>
      rw [List.filter_cons_of_pos rfl, List.length_cons, Statement.widthBehind]
      omega

/-! ### Running on a row -/

namespace Overlay

variable (overlay : Overlay) (base : Row) (width index : Nat) (value : Value)

/-- Room with no value in it shows the row. -/
theorem row_pad (overrides : List (Option Value)) (count : Nat) :
    (⟨base, overrides ++ List.replicate count none⟩ : Overlay).row =
      (⟨base, overrides⟩ : Overlay).row := by
  funext column
  rw [row, row, List.getElem?_append]
  by_cases hold : column < overrides.length
  · rw [if_pos hold]
  · rw [if_neg hold, List.getElem?_replicate, List.getElem?_eq_none (Nat.le_of_not_lt hold)]
    by_cases hroom : column - overrides.length < count
    · rw [if_pos hroom]
    · rw [if_neg hroom]

@[simp] theorem row_blank : (blank base width).row = base := row_pad base [] width

/-- A value shows in its own cell only, whether or not room had to be made for it. -/
@[simp] theorem row_set : (overlay.set index value).row =
    fun column ↦ if column = index then value else overlay.row column := by
  funext column
  have hpad := congrFun (row_pad overlay.base overlay.overrides
    (index + 1 - overlay.overrides.length)) column
  by_cases hindex : column = index
  · have hroom : index < (overlay.overrides ++
        List.replicate (index + 1 - overlay.overrides.length) none).length := by
      rw [List.length_append, List.length_replicate]
      omega
    rw [hindex, if_pos rfl, row, set, List.getElem?_set_self hroom]
  · rw [if_neg hindex, row, set, List.getElem?_set_ne (Ne.symm hindex)]
    exact hpad

end Overlay

/-- The overlay behind a statement that has the given value. -/
def Statement.lay (overlay : Overlay) (next : Nat) (value : Value) :
    Statement BoundColumn → Overlay
  | .expression _ => overlay
  | .assign target _ => overlay.set target.index value
  | .newColumn _ _ => overlay.set next value

namespace Program

/-- One step of a run: evaluate the statement, lay its value over the row, and go on. -/
theorem runStatements_cons (overlay : Overlay) (next : Nat) (statement : Statement BoundColumn)
    (rest : List (Statement BoundColumn)) :
    runStatements overlay next (statement :: rest) =
      (do
        let value ← statement.value.eval overlay.row
        let values ← runStatements (statement.lay overlay next value)
          (statement.widthBehind next) rest
        .ok (value :: values)) := by
  cases statement <;> rfl

theorem runStatements_cons_eq_ok_iff {overlay : Overlay} {next : Nat}
    {statement : Statement BoundColumn} {rest : List (Statement BoundColumn)}
    {values : List Value} :
    runStatements overlay next (statement :: rest) = .ok values ↔
      ∃ value others, statement.value.eval overlay.row = .ok value ∧
        runStatements (statement.lay overlay next value) (statement.widthBehind next) rest =
          .ok others ∧ values = value :: others := by
  rw [runStatements_cons, bind_eq_ok_iff]
  constructor
  · rintro ⟨value, hvalue, h⟩
    obtain ⟨others, hothers, hvalues⟩ := bind_eq_ok_iff.mp h
    exact ⟨value, others, hvalue, hothers, (Except.ok.inj hvalues).symm⟩
  · rintro ⟨value, others, hvalue, hothers, rfl⟩
    refine ⟨value, hvalue, ?_⟩
    rw [hothers]
    rfl

/-- A run depends on the cells that the overlay shows, not on how they came about. -/
theorem runStatements_congr {first second : Overlay} (h : first.row = second.row) (next : Nat)
    (statements : List (Statement BoundColumn)) :
    runStatements first next statements = runStatements second next statements := by
  induction statements generalizing first second next with
  | nil => rfl
  | cons statement rest ih =>
    have hlay : ∀ value, (statement.lay first next value).row =
        (statement.lay second next value).row := by
      intro value
      cases statement with
      | expression => exact h
      | assign => simp [Statement.lay, h]
      | newColumn => simp [Statement.lay, h]
    rw [runStatements_cons, runStatements_cons, h]
    congr 1
    funext value
    rw [ih (hlay value)]

/-- A run that succeeds has one value for each statement. -/
theorem length_of_runStatements {overlay : Overlay} {next : Nat}
    {statements : List (Statement BoundColumn)} {values : List Value}
    (h : runStatements overlay next statements = .ok values) :
    values.length = statements.length := by
  induction statements generalizing overlay next values with
  | nil =>
    obtain rfl := Except.ok.inj h
    rfl
  | cons statement rest ih =>
    obtain ⟨value, others, -, hothers, rfl⟩ := runStatements_cons_eq_ok_iff.mp h
    rw [List.length_cons, ih hothers, List.length_cons]

/-- A bound script is a program whose rows run from the width that the script was bound to. -/
theorem bind_eq_ok_iff {schema : Schema} {statements : List (Statement Reference)}
    {program : Program} :
    bind schema statements = .ok program ↔
      ∃ final, bindStatements schema statements = .ok (program.statements, final) ∧
        program.width = final.width := by
  rw [bind, ColumnFormula.bind_eq_ok_iff]
  constructor
  · rintro ⟨⟨bound, final⟩, hbound, h⟩
    cases h
    exact ⟨final, hbound, rfl⟩
  · obtain ⟨bound, width⟩ := program
    rintro ⟨final, hbound, rfl⟩
    exact ⟨⟨bound, final⟩, hbound, rfl⟩

/-- The room that an overlay has makes no difference to a run. -/
theorem runRow_of_bind {schema : Schema} {statements : List (Statement Reference)}
    {program : Program} (h : bind schema statements = .ok program) (row : Row) :
    program.runRow row = runStatements ⟨row, []⟩ schema.width program.statements := by
  obtain ⟨final, hbound, hwidth⟩ := bind_eq_ok_iff.mp h
  rw [runRow, runOver, newColumns, hwidth, width_of_bindStatements hbound, Nat.add_sub_cancel]
  exact runStatements_congr (Overlay.row_blank row _) _ _

/-! ### Allocation -/

/-- A program that is not too wide for an overlay runs on every row. -/
theorem evaluateRow_of_le {program : Program} (h : program.width ≤ Overlay.maxWidth) (row : Row) :
    program.evaluateRow row = .ok (program.runRow row) := by
  rw [evaluateRow, Overlay.allocate, if_pos h]
  rfl

/-- A column of a table and a statement take at least twice the memory of a cell of an overlay. So a
script and the columns of a table that it is bound to, both in memory, leave no program that is too
wide. -/
theorem evaluateRow_of_inMemory {table : Table} {statements : List (Statement Reference)}
    {program : Program} (h : bind table.schema statements = .ok program)
    (htable : 2 * table.width ≤ Overlay.maxWidth)
    (hstatements : 2 * program.statements.length ≤ Overlay.maxWidth) (row : Row) :
    program.evaluateRow row = .ok (program.runRow row) := by
  obtain ⟨final, hbound, hwidth⟩ := bind_eq_ok_iff.mp h
  have hnew := List.length_filter_le (·.isNewColumn) program.statements
  rw [width_of_bindStatements hbound, Table.width_schema] at hwidth
  exact evaluateRow_of_le (by omega) row

end Program

end ColumnFormula
