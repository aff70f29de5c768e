import ColumnFormula.Proofs.Table.Rows

/-!
# The order of rows

Rows may be evaluated in any order, for instance by several workers, if each row has a slot of its
own for its outcome and the slots are collected in order of the rows when all of them are filled
(`fillSlots`, `collectSlots`). A step fills one slot and leaves the others alone, so what the slots
hold in the end does not depend on the order (`fillSlots_of_perm`). Collected, they give what a pass
over the rows from first to last gives, although such a pass stops at the first row that fails and
never sees the rows behind it: the results of all rows in order, or the error of the lowest row that
fails (`runRows_order_independent`).
-/

set_option autoImplicit false
set_option relaxedAutoImplicit false

namespace ColumnFormula

/-! ### Slots -/

/-- A slot for the outcome of each row, empty until the row has been evaluated. -/
abbrev Slots (α : Type) := List (Option (Except TableError α))

variable {α : Type}

def emptySlots (count : Nat) : Slots α := List.replicate count none

/-- Evaluates a row and writes its outcome into its slot. -/
def fillSlot (evaluate : Nat → Except TableError α) (slots : Slots α) (row : Nat) : Slots α :=
  slots.set row (some (evaluate row))

/-- Evaluates the rows in the given order. -/
def fillSlots (evaluate : Nat → Except TableError α) (order : List Nat) (slots : Slots α) :
    Slots α :=
  order.foldl (fillSlot evaluate) slots

/-- The results of all rows in order, or the error of the lowest row that has one; nothing while a
slot is empty. -/
def collectSlots (slots : Slots α) : Option (Except TableError (List α)) :=
  (slots.mapM id).map collectOutcomes

/-- A step fills the slot of its row and no other. -/
theorem getElem?_fillSlot (evaluate : Nat → Except TableError α) (slots : Slots α)
    (done row : Nat) :
    (fillSlot evaluate slots done)[row]? =
      if row = done then (slots[row]?).map fun _ ↦ some (evaluate row) else slots[row]? := by
  rw [fillSlot, List.getElem?_set]
  by_cases hrow : row = done
  · subst hrow
    by_cases hlt : row < slots.length <;> simp [hlt]
  · rw [if_neg (Ne.symm hrow), if_neg hrow]

/-- A run fills the slots of its rows, in whatever order they come. -/
theorem getElem?_fillSlots (evaluate : Nat → Except TableError α) (order : List Nat)
    (slots : Slots α) (row : Nat) :
    (fillSlots evaluate order slots)[row]? =
      if row ∈ order then (slots[row]?).map fun _ ↦ some (evaluate row) else slots[row]? := by
  induction order generalizing slots with
  | nil => simp [fillSlots]
  | cons done rest ih =>
    have hstep : fillSlots evaluate (done :: rest) slots =
        fillSlots evaluate rest (fillSlot evaluate slots done) := rfl
    rw [hstep, ih, getElem?_fillSlot]
    by_cases hdone : row = done
    · rw [if_pos hdone, if_pos (List.mem_cons.mpr (.inl hdone)), Option.map_map]
      exact ite_self _
    · have hmem : row ∈ done :: rest ↔ row ∈ rest := by simp [hdone]
      simp only [if_neg hdone, hmem]

/-- When every row has been evaluated, each slot holds the outcome of its row. -/
theorem fillSlots_of_perm {count : Nat} {order : List Nat} (horder : order.Perm (List.range count))
    (evaluate : Nat → Except TableError α) :
    fillSlots evaluate order (emptySlots count) =
      (List.range count).map fun row ↦ some (evaluate row) := by
  refine List.ext_getElem? fun row ↦ ?_
  have hmem : row ∈ order ↔ row < count := by rw [horder.mem_iff, List.mem_range]
  rw [getElem?_fillSlots, emptySlots, List.getElem?_map]
  by_cases hrow : row < count
  · rw [if_pos (hmem.mpr hrow), List.getElem?_replicate, if_pos hrow, List.getElem?_range hrow]
    rfl
  · rw [if_neg (mt hmem.mp hrow), List.getElem?_replicate, if_neg hrow,
      List.getElem?_eq_none (by simpa using hrow)]
    rfl

theorem collectSlots_map_some (outcomes : List (Except TableError α)) :
    collectSlots (outcomes.map some) = some (collectOutcomes outcomes) := by
  have hfilled : (outcomes.map some).mapM id = some outcomes := by
    induction outcomes with
    | nil => rfl
    | cons outcome rest ih =>
      rw [List.map_cons, List.mapM_cons, ih]
      rfl
  rw [collectSlots, hfilled, Option.map_some]

/-- Filling the slots in any order and collecting them is a pass over the rows from first to
last. -/
theorem collectSlots_fillSlots {count : Nat} {order : List Nat}
    (horder : order.Perm (List.range count)) (evaluate : Nat → Except TableError α) :
    collectSlots (fillSlots evaluate order (emptySlots count)) =
      some (evaluateInOrder evaluate (List.range count)) := by
  have hslots : fillSlots evaluate order (emptySlots count) =
      ((List.range count).map evaluate).map some := by
    rw [fillSlots_of_perm horder, List.map_map]
    rfl
  rw [hslots, collectSlots_map_some, collectOutcomes_map]

/-! ### What a pass gives -/

/-- A pass succeeds with the results of its rows in order. -/
theorem evaluateInOrder_eq_ok_iff_map {evaluate : Nat → Except TableError α} {rows : List Nat}
    {results : List α} :
    evaluateInOrder evaluate rows = .ok results ↔ rows.map evaluate = results.map .ok := by
  induction rows generalizing results with
  | nil =>
    rw [evaluateInOrder, List.map_nil, eq_comm (a := []), List.map_eq_nil_iff]
    exact ⟨fun h ↦ (Except.ok.inj h).symm, fun h ↦ congrArg _ h.symm⟩
  | cons row rest ih =>
    rw [evaluateInOrder, bind_eq_ok_iff, List.map_cons]
    constructor
    · rintro ⟨first, hfirst, h⟩
      obtain ⟨others, hothers, hresults⟩ := bind_eq_ok_iff.mp h
      obtain rfl := Except.ok.inj hresults
      rw [hfirst, ih.mp hothers, List.map_cons]
    · intro h
      obtain ⟨first, others, rfl, hfirst, hothers⟩ := List.map_eq_cons_iff.mp h.symm
      exact ⟨first, hfirst.symm, bind_eq_ok_iff.mpr ⟨others, ih.mpr hothers.symm, rfl⟩⟩

/-- A pass fails with the error of its first row that fails. -/
theorem evaluateInOrder_eq_error_iff {evaluate : Nat → Except TableError α} {rows : List Nat}
    {error : TableError} :
    evaluateInOrder evaluate rows = .error error ↔
      ∃ earlier row later, rows = earlier ++ row :: later ∧
        (∀ r ∈ earlier, ∃ result, evaluate r = .ok result) ∧ evaluate row = .error error := by
  induction rows with
  | nil => simp [evaluateInOrder]
  | cons first rest ih =>
    constructor
    · intro h
      rcases exists_of_bind_eq_error h with hfirst | ⟨result, hresult, h⟩
      · exact ⟨[], first, rest, rfl, fun r hr ↦ absurd hr List.not_mem_nil, hfirst⟩
      · rcases exists_of_bind_eq_error h with hrest | ⟨others, -, h⟩
        · obtain ⟨earlier, row, later, rfl, hearlier, hrow⟩ := ih.mp hrest
          exact ⟨first :: earlier, row, later, rfl,
            List.forall_mem_cons.mpr ⟨⟨result, hresult⟩, hearlier⟩, hrow⟩
        · cases h
    · rintro ⟨earlier, row, later, hrows, hearlier, hrow⟩
      rw [evaluateInOrder]
      cases earlier with
      | nil =>
        obtain ⟨rfl, rfl⟩ := List.cons.inj hrows
        rw [hrow]
        rfl
      | cons r earlier =>
        obtain ⟨rfl, rfl⟩ := List.cons.inj hrows
        obtain ⟨⟨result, hresult⟩, hearlier⟩ := List.forall_mem_cons.mp hearlier
        rw [hresult, ok_bind, ih.mpr ⟨earlier, row, later, rfl, hearlier, hrow⟩]
        rfl

/-- Over all rows that is the lowest row that fails. -/
theorem evaluateInOrder_range_eq_error_iff {evaluate : Nat → Except TableError α} {count : Nat}
    {error : TableError} :
    evaluateInOrder evaluate (List.range count) = .error error ↔
      ∃ row < count, evaluate row = .error error ∧
        ∀ earlier < row, ∃ result, evaluate earlier = .ok result := by
  rw [evaluateInOrder_eq_error_iff]
  constructor
  · rintro ⟨earlier, row, later, hrange, hearlier, hrow⟩
    have hlength : earlier.length < (List.range count).length := by
      rw [hrange]
      simp
    have hplace : (List.range count)[earlier.length]? = some row := by
      rw [hrange]
      simp
    rw [List.length_range] at hlength
    rw [List.getElem?_range hlength] at hplace
    obtain rfl := Option.some.inj hplace
    refine ⟨_, hlength, hrow, fun r hr ↦ hearlier r ?_⟩
    have hbefore : earlier[r]? = some r := by
      have hwhole := List.getElem?_range (Nat.lt_trans hr hlength)
      rwa [hrange, List.getElem?_append_left hr] at hwhole
    exact List.mem_of_getElem? hbefore
  · rintro ⟨row, hrow, herror, hearlier⟩
    obtain ⟨more, rfl⟩ := Nat.exists_eq_add_of_lt hrow
    refine ⟨List.range row, row, (List.range more).map (row + 1 + ·), ?_,
      fun r hr ↦ hearlier r (List.mem_range.mp hr), herror⟩
    rw [Nat.add_right_comm, List.range_add, List.range_succ, List.append_assoc]
    rfl

/-! ### Rows of a table -/

namespace Table

/-- What becomes of a row under a policy. -/
def outcome (table : Table) (policy : ErrorPolicy) (evaluate : Row → Except EvalError α)
    (fallback : α) (row : Nat) : Except TableError α :=
  policy.settle fallback row (evaluate (table.row row))

/-- A row counts as failed only when errors end the pass. -/
theorem outcome_eq_error_iff {table : Table} {policy : ErrorPolicy}
    {evaluate : Row → Except EvalError α} {fallback : α} {row : Nat} {error : TableError} :
    table.outcome policy evaluate fallback row = .error error ↔
      policy = .abort ∧ ∃ cause, evaluate (table.row row) = .error cause ∧
        error = .row row cause := by
  unfold outcome
  cases evaluate (table.row row) with
  | ok a => simp [ErrorPolicy.settle]
  | error cause => cases policy <;> simp [ErrorPolicy.settle, eq_comm]

theorem exists_outcome_eq_ok_iff {table : Table} {evaluate : Row → Except EvalError α}
    {fallback : α} {row : Nat} :
    (∃ result, table.outcome .abort evaluate fallback row = .ok result) ↔
      ∃ result, evaluate (table.row row) = .ok result := by
  unfold outcome
  cases evaluate (table.row row) <;> simp [ErrorPolicy.settle]

end Table

/-- Evaluating the rows of a table gives the same whether they are evaluated one after the other or
all together, from however many rows on, and in whatever order they are evaluated when each puts its
outcome into a slot of its own. It is the list of the results in order of the rows, or, if errors
end the pass, the error of the lowest row that fails with the number of that row. -/
theorem runRows_order_independent (table : Table) (policy : ErrorPolicy)
    (evaluate : Row → Except EvalError α) (fallback : α) (order : List Nat)
    (horder : order.Perm (List.range table.rowCount)) :
    let outcome := table.outcome policy evaluate fallback
    let sequential := evaluateInOrder outcome (List.range table.rowCount)
    collectSlots (fillSlots outcome order (emptySlots table.rowCount)) = some sequential ∧
    (∀ parallel minParallelRows,
      table.runRows ⟨parallel, minParallelRows, policy⟩ evaluate fallback = sequential) ∧
    (∀ results, sequential = .ok results ↔
      (List.range table.rowCount).map outcome = results.map .ok) ∧
    (∀ error, sequential = .error error ↔
      policy = .abort ∧ ∃ row < table.rowCount, ∃ cause, error = .row row cause ∧
        evaluate (table.row row) = .error cause ∧
        ∀ earlier < row, ∃ result, evaluate (table.row earlier) = .ok result) := by
  intro outcome sequential
  refine ⟨collectSlots_fillSlots horder outcome, fun parallel minParallelRows ↦ ?_,
    fun results ↦ evaluateInOrder_eq_ok_iff_map, fun error ↦ ?_⟩
  · exact runRows_eq_evaluateInOrder table ⟨parallel, minParallelRows, policy⟩ evaluate fallback
  · rw [evaluateInOrder_range_eq_error_iff]
    constructor
    · rintro ⟨row, hrow, herror, hearlier⟩
      obtain ⟨rfl, cause, hcause, rfl⟩ := Table.outcome_eq_error_iff.mp herror
      exact ⟨rfl, row, hrow, cause, rfl, hcause,
        fun r hr ↦ Table.exists_outcome_eq_ok_iff.mp (hearlier r hr)⟩
    · rintro ⟨rfl, row, hrow, cause, rfl, hcause, hearlier⟩
      exact ⟨row, hrow, Table.outcome_eq_error_iff.mpr ⟨rfl, cause, hcause, rfl⟩,
        fun r hr ↦ Table.exists_outcome_eq_ok_iff.mpr (hearlier r hr)⟩

/-- Two of three rows fail, and the later one of them is evaluated first. -/
theorem runRows_order_independent_backwards :
    let table : Table := ⟨[⟨"a", [.number (.ofNat 1), .boolean true, .text "x"]⟩]⟩
    let evaluate : Row → Except EvalError Value := fun row ↦
      BinaryOp.apply (.arithmetic .add) (row 0) (row 0)
    [2, 0, 1].Perm (List.range table.rowCount) ∧
      collectSlots (fillSlots (table.outcome .abort evaluate .nil) [2, 0, 1] (emptySlots 3)) =
        some (table.runRows ⟨true, 0, .abort⟩ evaluate .nil) := by
  intro table evaluate
  have horder : [2, 0, 1].Perm (List.range table.rowCount) := by decide
  obtain ⟨hslots, hrun, -⟩ := runRows_order_independent table .abort evaluate .nil [2, 0, 1] horder
  exact ⟨horder, hslots.trans (congrArg some (hrun true 0).symm)⟩

end ColumnFormula
