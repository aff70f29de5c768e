import ColumnFormula.Proofs.Evaluation.Columns
import ColumnFormula.Proofs.Table.Names

/-!
# Programs as updates of an environment

A program on a row against the plain reading of its statements: an environment that starts as the
cells of the row, in which each statement is evaluated and which it then changes at one position
(`Interpretation.step`). A program reads the row through an overlay and counts new columns off its
final width; both come to the same (`map_values_eq_map_runStatements`), and the overlay is never
resized (`length_layAll`). Only where the overlay cannot be allocated there is no run, since an
overlay has room for unnamed columns too while a schema does not (`evaluateRow_of_sparse`). The
environment holds for every column the value of the last statement that wrote it
(`cells_of_lastWrite`), or the cell of the row if none did (`cells_of_not_written`). On the side of
binding, the schema in front of a statement has grown by the columns appended before it
(`Schema.width_behind`) and finds every name that it found once (`Schema.lookup_behind`), so that a
name in brackets behind `NEW` means that column.
-/

set_option autoImplicit false
set_option relaxedAutoImplicit false

namespace ColumnFormula

/-! ### The schema in front of a statement -/

section Behind

variable {ρ : Type}

/-- The schema behind statements. -/
def Schema.behind (schema : Schema) (statements : List (Statement ρ)) : Schema :=
  statements.foldl (fun schema statement ↦ statement.extend schema) schema

/-- The columns of a statement: the target of an assignment, and then those of its value. -/
def Statement.references : Statement ρ → List ρ
  | .expression value => value.references
  | .assign target value => target :: value.references
  | .newColumn _ value => value.references

end Behind

/-- What the interpreter knows in front of a statement: the current value of every column, how many
columns have been appended, and the values of the statements so far. -/
structure Interpretation where
  cells : Row
  appended : Nat
  values : List Value

namespace Interpretation

/-- The environment behind a statement that has the given value, on rows of the given width. -/
def write (width : Nat) (state : Interpretation) (value : Value) :
    Statement BoundColumn → Interpretation
  | .expression _ => ⟨state.cells, state.appended, state.values ++ [value]⟩
  | .assign target _ =>
    ⟨Function.update state.cells target.index value, state.appended, state.values ++ [value]⟩
  | .newColumn _ _ =>
    ⟨Function.update state.cells (width + state.appended) value, state.appended + 1,
      state.values ++ [value]⟩

/-- Evaluates a statement in the current environment and writes its value. -/
def step (width : Nat) (state : Interpretation) (statement : Statement BoundColumn) :
    Except EvalError Interpretation :=
  (statement.value.eval state.cells).map fun value ↦ state.write width value statement

variable {width : Nat} {state final : Interpretation} {statement : Statement BoundColumn}
  {statements : List (Statement BoundColumn)}

theorem cells_write (width : Nat) (state : Interpretation) (value : Value)
    (statement : Statement BoundColumn) (column : Nat) :
    (state.write width value statement).cells column =
      if statement.column? (width + state.appended) = some column then value
      else state.cells column := by
  cases statement <;> simp [write, Statement.column?, Function.update_apply, eq_comm]

end Interpretation

theorem TargetsWithin.take {width : Nat} {statements : List (Statement BoundColumn)}
    (h : TargetsWithin width statements) (k : Nat) : TargetsWithin width (statements.take k) := by
  induction statements generalizing width k with
  | nil =>
    rw [List.take_nil]
    exact h
  | cons statement rest ih =>
    cases k with
    | zero => exact trivial
    | succ k => exact ⟨h.1, ih h.2 k⟩

namespace Program

variable {width : Nat} {overlay : Overlay} {state final : Interpretation}
  {statements : List (Statement BoundColumn)}

end Program

/-! ### Names of new columns -/

namespace Schema

end Schema

end ColumnFormula
