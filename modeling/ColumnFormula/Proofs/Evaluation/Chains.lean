import ColumnFormula.Evaluation
import ColumnFormula.Proofs.Outcome

/-!
# Chains of comparisons

A chain `a < b <= c` is the conjunction `(a < b) && (b <= c)` of the comparisons between its
adjacent operands, whatever its length and whichever of its operands fails
(`eval_chain_eq_adjacentPairs`). The two are evaluated differently: the chain keeps the value of the
operand before the current one, the conjunction evaluates every inner operand in both of its pairs.
Evaluation depends on nothing but the row, so the second time gives the value of the first.

The conjunction is nested to the left, hence the induction over the links is about a conjunction
that is already built. Once that one has failed or is false, no further pair changes the outcome
(`eval_conjoin_of_settled`); while it is true, the outcome is that of the remaining links
(`eval_conjoin`).
-/

set_option autoImplicit false
set_option relaxedAutoImplicit false

namespace ColumnFormula.Expr

/-! ### The conjunction of adjacent pairs -/

section Tree

variable {ρ : Type}

/-- Extends a conjunction by one comparison for each link; `last` is the operand in front of the
first link. -/
def conjoin (conjunction last : Expr ρ) : List (Comparison × Expr ρ) → Expr ρ
  | [] => conjunction
  | (op, e) :: rest =>
    conjoin (.binary .and conjunction (.binary (.comparison op) last e)) e rest

/-- The comparisons between adjacent operands joined by `&&`, nested to the left. -/
def adjacentPairs (first : Expr ρ) (op : Comparison) (second : Expr ρ)
    (rest : List (Comparison × Expr ρ)) : Expr ρ :=
  conjoin (.binary (.comparison op) first second) second rest

end Tree

variable {row : Row}

/-! ### One more pair -/

theorem eval_comparison (op : Comparison) (first second : Expr BoundColumn) :
    (binary (.comparison op) first second).eval row = (do
      let left ← first.eval row
      let right ← second.eval row
      .ok (.boolean (op.holds left right))) := by
  simp only [eval, BinaryOp.apply]

/-- A single comparison is a chain with one link. -/
theorem eval_comparison_of_first {first : Expr BoundColumn} {left : Value}
    (h : first.eval row = .ok left) (op : Comparison) (second : Expr BoundColumn) :
    (binary (.comparison op) first second).eval row =
      (evalLinks row left [op] [second]).map .boolean := by
  rw [eval_comparison, h, evalLinks]
  cases second.eval row with
  | error error => rfl
  | ok right =>
    simp only [ok_bind, evalLinks]
    cases op.holds left right <;> rfl

/-- A conjunction fails where its first operand fails and is false where that one is false. -/
def IsSettled (outcome : Except EvalError Value) : Prop :=
  outcome = .ok (.boolean false) ∨ ∃ error, outcome = .error error

theorem eval_and_of_settled {left : Expr BoundColumn} (h : IsSettled (left.eval row))
    (right : Expr BoundColumn) : (binary .and left right).eval row = left.eval row := by
  rw [eval]
  rcases h with hfalse | ⟨error, herror⟩
  · rw [hfalse]
    rfl
  · rw [herror]
    rfl

theorem eval_and_of_true {left right : Expr BoundColumn} {outcome : Except EvalError Bool}
    (h : left.eval row = .ok (.boolean true)) (hright : right.eval row = outcome.map .boolean) :
    (binary .and left right).eval row = outcome.map .boolean := by
  rw [eval, h, hright]
  cases outcome <;> rfl

/-! ### All pairs -/

theorem eval_conjoin_of_settled {conjunction : Expr BoundColumn}
    (h : IsSettled (conjunction.eval row)) (last : Expr BoundColumn)
    (links : List (Comparison × Expr BoundColumn)) :
    (conjoin conjunction last links).eval row = conjunction.eval row := by
  induction links generalizing conjunction last with
  | nil => rfl
  | cons link rest ih =>
    obtain ⟨op, e⟩ := link
    have hand := eval_and_of_settled h (.binary (.comparison op) last e)
    rw [conjoin, ih (by rwa [hand]), hand]

/-- The invariant of a growing conjunction: as long as all earlier pairs hold, its outcome is that
of its last pair. -/
theorem eval_conjoin {conjunction last : Expr BoundColumn} {left : Value} {op : Comparison}
    (h : conjunction.eval row = (evalLinks row left [op] [last]).map .boolean)
    (links : List (Comparison × Expr BoundColumn)) :
    (conjoin conjunction last links).eval row =
      (evalLinks row left (op :: links.map Prod.fst) (last :: links.map Prod.snd)).map
        .boolean := by
  induction links generalizing conjunction last left op with
  | nil => exact h
  | cons link rest ih =>
    obtain ⟨next, e⟩ := link
    rw [evalLinks]
    rw [evalLinks] at h
    cases hlast : last.eval row with
    | error error =>
      rw [hlast] at h
      rw [eval_conjoin_of_settled (.inr ⟨error, h⟩), h]
      rfl
    | ok right =>
      rw [hlast, ok_bind] at h
      rw [ok_bind]
      cases hholds : op.holds left right with
      | false =>
        rw [hholds] at h
        rw [eval_conjoin_of_settled (.inl h), h]
        rfl
      | true =>
        rw [hholds] at h
        exact ih (eval_and_of_true h (eval_comparison_of_first hlast next e))

/-- A chain of comparisons evaluates like the conjunction of its adjacent pairs, to the same truth
value or the same error. -/
theorem eval_chain_eq_adjacentPairs (row : Row) (first : Expr BoundColumn) (op : Comparison)
    (second : Expr BoundColumn) (rest : List (Comparison × Expr BoundColumn)) :
    (chain (first :: second :: rest.map Prod.snd) (op :: rest.map Prod.fst)).eval row =
      (adjacentPairs first op second rest).eval row := by
  rw [eval, adjacentPairs]
  cases hfirst : first.eval row with
  | error error =>
    have hpair : (binary (.comparison op) first second).eval row = .error error := by
      rw [eval_comparison, hfirst]
      rfl
    rw [eval_conjoin_of_settled (.inr ⟨error, hpair⟩), hpair]
    rfl
  | ok left =>
    rw [eval_conjoin (eval_comparison_of_first hfirst op second), ok_bind]
    cases evalLinks row left (op :: rest.map Prod.fst) (second :: rest.map Prod.snd) <;> rfl

end ColumnFormula.Expr
