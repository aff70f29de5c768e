import ColumnFormula.Proofs.Outcome
import ColumnFormula.Table.Calculation

/-!
# Evaluating rows

Evaluating all rows and then collecting their outcomes gives what evaluating them one after the
other gives (`runRows_eq_evaluateInOrder`), so neither the number of rows nor the options for
running in parallel matter. A pass succeeds exactly if every row does, and then it gives the results
of the rows in order (`evaluateInOrder_eq_ok_iff`). The policy for failing rows decides what counts:
giving up asks every evaluation to succeed (`runRows_abort_eq_ok_iff`), writing nil always succeeds
(`runRows_nil`), and either way the results are those of the rows in order (`eq_map_of_runRows`).
-/

set_option autoImplicit false
set_option relaxedAutoImplicit false

namespace ColumnFormula

/-! ### Passes over rows -/

theorem collectOutcomes_map {α : Type} (evaluate : Nat → Except TableError α) (rows : List Nat) :
    collectOutcomes (rows.map evaluate) = evaluateInOrder evaluate rows := by
  induction rows with
  | nil => rfl
  | cons row rest ih => rw [List.map_cons, collectOutcomes, evaluateInOrder, ih]

/-- The order of evaluation makes no difference. -/
theorem runRows_eq_evaluateInOrder {α : Type} (table : Table) (options : EvalOptions)
    (evaluate : Row → Except EvalError α) (fallback : α) :
    table.runRows options evaluate fallback =
      evaluateInOrder (fun row ↦ options.onError.settle fallback row (evaluate (table.row row)))
        (List.range table.rowCount) := by
  unfold Table.runRows
  dsimp only
  rw [collectOutcomes_map, ite_self]

/-- A pass succeeds exactly if every row does, and gives their results in order. -/
theorem evaluateInOrder_eq_ok_iff {α : Type} [Inhabited α] {evaluate : Nat → Except TableError α}
    {rows : List Nat} {results : List α} :
    evaluateInOrder evaluate rows = .ok results ↔
      ∃ value : Nat → α, (∀ row ∈ rows, evaluate row = .ok (value row)) ∧
        results = rows.map value := by
  constructor
  · intro h
    refine ⟨fun row ↦ (evaluate row).toOption.getD default, ?_⟩
    induction rows generalizing results with
    | nil =>
      obtain rfl := Except.ok.inj h
      exact ⟨nofun, rfl⟩
    | cons row rest ih =>
      obtain ⟨first, hfirst, hrest⟩ := bind_eq_ok_iff.mp h
      obtain ⟨others, hothers, hresults⟩ := bind_eq_ok_iff.mp hrest
      obtain rfl := Except.ok.inj hresults
      obtain ⟨hrows, rfl⟩ := ih hothers
      have hvalue : (evaluate row).toOption.getD default = first := by
        rw [hfirst]
        rfl
      refine ⟨fun r hr ↦ ?_, by rw [List.map_cons, hvalue]⟩
      rcases List.mem_cons.mp hr with rfl | hr
      · exact hfirst.trans (congrArg Except.ok hvalue.symm)
      · exact hrows r hr
  · rintro ⟨value, hrows, rfl⟩
    induction rows with
    | nil => rfl
    | cons row rest ih =>
      rw [evaluateInOrder, hrows row List.mem_cons_self,
        ih fun r hr ↦ hrows r (List.mem_cons_of_mem row hr)]
      rfl

theorem evaluateInOrder_map {α β : Type} (f : α → β) (evaluate : Nat → Except TableError α)
    (rows : List Nat) :
    evaluateInOrder (fun row ↦ (evaluate row).map f) rows =
      (evaluateInOrder evaluate rows).map (List.map f) := by
  induction rows with
  | nil => rfl
  | cons row rest ih =>
    rw [evaluateInOrder, evaluateInOrder, ih]
    cases evaluate row with
    | error error => rfl
    | ok a => cases evaluateInOrder evaluate rest <;> rfl

/-- Changing the result of every row changes the results of the pass. -/
theorem runRows_map {α β : Type} (f : α → β) (table : Table) (options : EvalOptions)
    (evaluate : Row → Except EvalError α) (fallback : α) :
    table.runRows options (fun row ↦ (evaluate row).map f) (f fallback) =
      (table.runRows options evaluate fallback).map (List.map f) := by
  rw [runRows_eq_evaluateInOrder, runRows_eq_evaluateInOrder, ← evaluateInOrder_map]
  congr 1
  funext row
  cases evaluate (table.row row) with
  | ok a => rfl
  | error error => cases options.onError <;> rfl

/-! ### The two policies -/

/-- Giving up at errors, a pass succeeds exactly if every row can be evaluated. -/
theorem runRows_abort_eq_ok_iff {α : Type} [Inhabited α] {table : Table} {options : EvalOptions}
    (habort : options.onError = .abort) {evaluate : Row → Except EvalError α} {fallback : α}
    {results : List α} :
    table.runRows options evaluate fallback = .ok results ↔
      ∃ value : Nat → α, (∀ row < table.rowCount, evaluate (table.row row) = .ok (value row)) ∧
        results = (List.range table.rowCount).map value := by
  rw [runRows_eq_evaluateInOrder, evaluateInOrder_eq_ok_iff, habort]
  have hsettle : ∀ (row : Nat) (outcome : Except EvalError α) (a : α),
      ErrorPolicy.settle .abort fallback row outcome = .ok a ↔ outcome = .ok a := by
    intro row outcome a
    cases outcome with
    | ok b => exact ⟨fun h ↦ congrArg _ (Except.ok.inj h), fun h ↦ congrArg _ (Except.ok.inj h)⟩
    | error error => exact ⟨nofun, nofun⟩
  simp only [hsettle, List.mem_range]

/-- Writing nil at errors, a pass always succeeds; failing rows get the fallback. -/
theorem runRows_nil {α : Type} [Inhabited α] {table : Table} {options : EvalOptions}
    (hnil : options.onError = .nil) (evaluate : Row → Except EvalError α) (fallback : α) :
    table.runRows options evaluate fallback =
      .ok ((List.range table.rowCount).map fun row ↦
        (evaluate (table.row row)).toOption.getD fallback) := by
  rw [runRows_eq_evaluateInOrder, evaluateInOrder_eq_ok_iff, hnil]
  refine ⟨_, fun row _ ↦ ?_, rfl⟩
  cases evaluate (table.row row) <;> rfl

/-- Under both policies a pass that succeeds gives each row its value, and the fallback to a row
that fails. -/
theorem eq_map_of_runRows {α : Type} [Inhabited α] {table : Table} {options : EvalOptions}
    {evaluate : Row → Except EvalError α} {fallback : α} {results : List α}
    (h : table.runRows options evaluate fallback = .ok results) :
    results = (List.range table.rowCount).map fun row ↦
      (evaluate (table.row row)).toOption.getD fallback := by
  cases hpolicy : options.onError with
  | abort =>
    obtain ⟨value, hvalue, rfl⟩ := (runRows_abort_eq_ok_iff hpolicy).mp h
    refine List.map_congr_left fun row hrow ↦ ?_
    rw [hvalue row (List.mem_range.mp hrow)]
    rfl
  | nil =>
    rw [runRows_nil hpolicy] at h
    exact (Except.ok.inj h).symm

end ColumnFormula
