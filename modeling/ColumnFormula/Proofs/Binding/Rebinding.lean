import ColumnFormula.Proofs.Binding.Resolution
import ColumnFormula.Proofs.Evaluation.Safety

/-!
# Binding a bound formula again

A bound formula carries the positions of its columns; the names beside them are for answers only.
Binding it to another schema checks the positions against the width, in the order in which the
formula lists its columns (`Expr.rebind_eq_error_iff`), and gives each column the name that the
other schema has for it (`Expr.eq_mapReferences_of_rebind`). The positions stay, so the formula
lists the same columns and evaluates to the same result on every row, whatever the columns of the
other schema are called (`Expr.rebinds_of_bind`).
-/

set_option autoImplicit false
set_option relaxedAutoImplicit false

namespace ColumnFormula

/-! ### The first position out of range -/

/-- Leaving out repetitions does not change which number is the first to satisfy a condition. -/
theorem find?_eraseDups (p : Nat → Bool) (indices : List Nat) :
    indices.eraseDups.find? p = indices.find? p := by
  generalize hlength : indices.length = n
  induction n using Nat.strongRecOn generalizing indices with
  | ind n ih =>
    cases indices with
    | nil => rfl
    | cons index rest =>
      have hshorter : (rest.filter fun other ↦ !other == index).length < n := by
        rw [← hlength, List.length_cons]
        exact Nat.lt_succ_of_le (List.length_filter_le _ rest)
      rw [List.eraseDups_cons, List.find?_cons, List.find?_cons, ih _ hshorter _ rfl,
        List.find?_filter]
      by_cases hindex : p index = true
      · rw [hindex]
      · -- Repetitions of a number that does not satisfy the condition do not satisfy it either.
        have hrest : (fun other ↦ decide ((!other == index) = true ∧ p other = true)) = p := by
          funext other
          by_cases hother : other = index
          · simp [hother, hindex]
          · simp [hother]
        rw [hrest]

namespace Schema

variable {schema : Schema} {index : Nat}

theorem resolveIndex_of_lt (h : index < schema.width) :
    schema.resolveIndex index = .ok (schema.columnAt index s!"#{index}") := if_pos h

theorem resolveIndex_of_ge (h : schema.width ≤ index) :
    schema.resolveIndex index = .error (.indexOutOfRange index schema.width) :=
  if_neg (Nat.not_lt.mpr h)

theorem exists_resolveIndex_eq_ok_iff :
    (∃ column, schema.resolveIndex index = .ok column) ↔ index < schema.width := by
  by_cases h : index < schema.width
  · exact ⟨fun _ ↦ h, fun _ ↦ ⟨_, resolveIndex_of_lt h⟩⟩
  · rw [resolveIndex_of_ge (Nat.not_lt.mp h)]
    exact ⟨nofun, fun hlt ↦ absurd hlt h⟩

end Schema

namespace Expr

/-! ### Bound columns as references -/

section References

variable {σ ε : Type} {f : Reference → Except ε σ}

theorem resolveList_toReferencesList {es : List (Expr BoundColumn)}
    (h : ∀ e ∈ es, e.toReferences.resolve f = e.resolve fun column ↦ f (.bound column)) :
    resolveList f (toReferencesList es) = resolveList (fun column ↦ f (.bound column)) es := by
  induction es with
  | nil => rfl
  | cons e rest ih =>
    obtain ⟨he, hrest⟩ := List.forall_mem_cons.mp h
    rw [toReferencesList, resolveList, resolveList, he, ih hrest]

theorem resolve_toReferences (f : Reference → Except ε σ) (b : Expr BoundColumn) :
    b.toReferences.resolve f = b.resolve fun column ↦ f (.bound column) := by
  induction b using treeInduction with
  | number | text | boolean | nil | reference => rfl
  | binary op left right ihleft ihright =>
    rw [toReferences, resolve, resolve, ihleft, ihright]
  | chain operands operators ih =>
    rw [toReferences, resolve, resolve, resolveList_toReferencesList ih]
  | call name args ih => rw [toReferences, resolve, resolve, resolveList_toReferencesList ih]

end References

/-! ### Binding again -/

variable {b c : Expr BoundColumn} {schema : Schema}

theorem exists_rebind_eq_ok_iff :
    (∃ c, b.rebind schema = .ok c) ↔ ∀ index ∈ b.columns, index < schema.width := by
  rw [rebind, exists_resolve_eq_ok_iff]
  constructor
  · intro h index hindex
    obtain ⟨column, hcolumn, rfl⟩ := mem_columns.mp hindex
    exact Schema.exists_resolveIndex_eq_ok_iff.mp (h column hcolumn)
  · intro h column hcolumn
    exact Schema.exists_resolveIndex_eq_ok_iff.mpr
      (h column.index (mem_columns.mpr ⟨column, hcolumn, rfl⟩))

/-- A column that is bound again stays at its position and takes the name that the schema has for
it. -/
theorem eq_mapReferences_of_rebind (h : b.rebind schema = .ok c) :
    c = b.mapReferences fun column ↦ schema.columnAt column.index s!"#{column.index}" := by
  have hwithin := exists_rebind_eq_ok_iff.mp ⟨c, h⟩
  refine Except.ok.inj (h.symm.trans (resolve_of_forall fun column hcolumn ↦ ?_))
  exact Schema.resolveIndex_of_lt (hwithin column.index (mem_columns.mpr ⟨column, hcolumn, rfl⟩))

/-- Binding again fails at the first listed position that is out of range. -/
theorem rebind_eq_error_iff {error : BindError} :
    b.rebind schema = .error error ↔
      ∃ index, b.columns.find? (schema.width ≤ ·) = some index ∧
        error = .indexOutOfRange index schema.width := by
  have hpass : FailsFirst (fun column ↦ schema.resolve (.bound column)) b.references error ↔
      ∃ column, b.references.find? (fun column ↦ schema.width ≤ column.index) = some column ∧
        error = .indexOutOfRange column.index schema.width := by
    refine failsFirst_iff_find? (fun column hin ↦ ?_) fun column hout ↦ ?_
    · exact ⟨_, Schema.resolveIndex_of_lt (Nat.not_le.mp (of_decide_eq_false hin))⟩
    · exact Schema.resolveIndex_of_ge (of_decide_eq_true hout)
  rw [rebind, resolve_eq_error_iff, hpass, columns, find?_eraseDups, List.find?_map]
  simp only [Option.map_eq_some_iff]
  constructor
  · rintro ⟨column, hfind, herror⟩
    exact ⟨column.index, ⟨column, hfind, rfl⟩, herror⟩
  · rintro ⟨index, ⟨column, hfind, rfl⟩, herror⟩
    exact ⟨column, hfind, herror⟩

theorem columns_mapReferences {g : BoundColumn → BoundColumn}
    (hindex : ∀ column, (g column).index = column.index) :
    (b.mapReferences g).columns = b.columns := by
  have hcolumns : BoundColumn.index ∘ g = BoundColumn.index := funext hindex
  rw [columns, columns, references_mapReferences, List.map_map, hcolumns]

end Expr

/-- What binding a formula that was bound to a first schema to a second one gives. -/
structure Expr.Rebinds (e : Expr Reference) (first : Schema) (b : Expr BoundColumn)
    (second : Schema) : Prop where
  /-- Binding again is binding the tree in which every reference is a bound column. -/
  eq_bind : b.rebind second = b.toReferences.bind second
  isOk_iff : (∃ c, b.rebind second = .ok c) ↔ ∀ index ∈ b.columns, index < second.width
  columns : ∀ c, b.rebind second = .ok c → c.columns = b.columns
  eval : ∀ c, b.rebind second = .ok c → ∀ row, c.eval row = b.eval row
  error_iff : ∀ error, b.rebind second = .error error ↔
    ∃ index, b.columns.find? (second.width ≤ ·) = some index ∧
      error = .indexOutOfRange index second.width
  /-- Each reference of the formula denotes the position that it had in the first schema, however
  the columns of the second one are called. -/
  positions : ∀ c, b.rebind second = .ok c →
    List.Forall₂ (fun reference column ↦
      ∃ old, first.resolve reference = .ok old ∧ column.index = old.index)
      e.references c.references

/-- Binding a bound formula to another schema keeps its meaning, or fails at the first column that
the other schema does not have. -/
theorem Expr.rebinds_of_bind {e : Expr Reference} {first : Schema} {b : Expr BoundColumn}
    (h : e.bind first = .ok b) (second : Schema) : e.Rebinds first b second where
  eq_bind := (resolve_toReferences second.resolve b).symm
  isOk_iff := exists_rebind_eq_ok_iff
  columns c hc := by
    rw [eq_mapReferences_of_rebind hc]
    exact columns_mapReferences fun column ↦ second.index_columnAt column.index _
  eval c hc row := by
    rw [eq_mapReferences_of_rebind hc]
    exact eval_mapReferences fun column _ ↦ congrArg row (second.index_columnAt column.index _)
  error_iff error := rebind_eq_error_iff
  positions c hc := by
    rw [eq_mapReferences_of_rebind hc, references_mapReferences, List.forall₂_map_right_iff]
    refine (forall₂_references_of_resolve h).imp fun reference old hold ↦ ?_
    exact ⟨old, hold, second.index_columnAt old.index _⟩

/-- `[n] & C` bound to the columns `n`, `m` and `o`, and then to columns with the names of the first
two exchanged: `[n]` remains the first column, which is now called `m`. -/
theorem Expr.rebinds_of_bind_exchanged :
    let e : Expr Reference :=
      .binary .concat (.reference (.columnName "n")) (.reference (.identifier "C"))
    let b : Expr BoundColumn := .binary .concat (.reference ⟨0, "n"⟩) (.reference ⟨2, "o"⟩)
    let c : Expr BoundColumn := .binary .concat (.reference ⟨0, "m"⟩) (.reference ⟨2, "#2"⟩)
    let first := Schema.ofNames ["n", "m", "o"]
    let second := Schema.ofNames ["m", "n", ""]
    e.bind first = .ok b ∧ b.rebind second = .ok c ∧ e.Rebinds first b second := by
  intro e b c first second
  have hbind : e.bind first = .ok b := rfl
  exact ⟨hbind, rfl, Expr.rebinds_of_bind hbind second⟩

end ColumnFormula
