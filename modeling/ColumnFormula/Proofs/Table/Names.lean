import ColumnFormula.Proofs.Table.CallStatements
import Mathlib.Data.List.Induction
import Mathlib.Data.List.Nodup

/-!
# Column names

A name is looked up at the first place where a list of names has it (`Schema.lookup_ofNames`), so
names that are appended change nothing for a name that is found already. A script binds only if the
name of every new column is free when its statement is reached; if the names of a table are
distinct, unnamed columns apart, they remain so (`namesDistinct_of_bindStatements`).
-/

set_option autoImplicit false
set_option relaxedAutoImplicit false

namespace ColumnFormula

/-! ### Looking up -/

namespace Schema

/-- A name is found in front of a new column, or at the new column if it is its name. -/
theorem lookup_push (schema : Schema) (new name : String) :
    (schema.push new).lookup name =
      (schema.lookup name).or (if name ≠ "" ∧ new = name then some schema.width else none) := by
  unfold lookup
  by_cases hname : name = ""
  · simp [hname]
  · rw [if_neg (by simpa using hname), if_neg (by simpa using hname)]
    by_cases hnew : new = ""
    · have hne : ¬(name ≠ "" ∧ new = name) := fun h ↦ h.1 (h.2 ▸ hnew)
      rw [if_neg hne, Option.or_none, push, if_pos (by simpa using hnew)]
    · rw [push, if_neg (by simpa using hnew)]
      dsimp only
      rw [List.find?_append, Option.map_or]
      by_cases heq : new = name <;> simp [heq, hname]

theorem ofNames_concat (names : List String) (name : String) :
    ofNames (names ++ [name]) = (ofNames names).push name := by
  rw [ofNames, List.foldl_append]
  rfl

/-- A name is looked up at the first place where the list has it; the empty name is no name. -/
theorem lookup_ofNames (names : List String) (name : String) :
    (ofNames names).lookup name = if name = "" then none else names.findIdx? (· == name) := by
  induction names using List.reverseRecOn with
  | nil => simp [ofNames, lookup, empty]
  | append_singleton names last ih =>
    rw [ofNames_concat, lookup_push, ih, width_ofNames, List.findIdx?_append]
    by_cases hname : name = ""
    · simp [hname]
    · by_cases hlast : last = name <;> simp [hname, hlast]

theorem lookup_ofNames_eq_none_iff {names : List String} {name : String} :
    (ofNames names).lookup name = none ↔ name = "" ∨ name ∉ names := by
  rw [lookup_ofNames]
  split
  · simp [*]
  · rw [List.findIdx?_eq_none_iff]
    simp only [*, false_or, beq_eq_false_iff_ne]
    exact ⟨fun h hmem ↦ h name hmem rfl, fun h other hother heq ↦ h (heq ▸ hother)⟩

/-- A name that is found stays where it is when further names are appended. -/
theorem lookup_ofNames_of_prefix {names more : List String} (hmore : names <+: more)
    {name : String} {index : Nat} (h : (ofNames names).lookup name = some index) :
    (ofNames more).lookup name = some index := by
  obtain ⟨others, rfl⟩ := hmore
  rw [lookup_ofNames] at h ⊢
  split at h
  · cases h
  · rename_i hname
    rw [if_neg hname, List.findIdx?_append, h]
    rfl

end Schema

/-! ### Distinct names -/

/-- No name occurs twice; any number of columns may be unnamed. -/
def NamesDistinct (names : List String) : Prop := (names.filter (· ≠ "")).Nodup

instance (names : List String) : Decidable (NamesDistinct names) :=
  inferInstanceAs (Decidable (List.Nodup _))

theorem namesDistinct_concat {names : List String} {name : String} (hnames : NamesDistinct names)
    (hname : name = "" ∨ name ∉ names) : NamesDistinct (names ++ [name]) := by
  unfold NamesDistinct at hnames ⊢
  rw [List.filter_append]
  by_cases hempty : name = ""
  · simpa [hempty] using hnames
  · have hfree := hname.resolve_left hempty
    rw [List.filter_cons_of_pos (by simpa using hempty), List.filter_nil, ← List.concat_eq_append]
    exact List.Nodup.concat (fun hmem ↦ hfree (List.mem_of_mem_filter hmem)) hnames

/-- A statement that binds appends only a column whose name is free. -/
theorem Statement.lookup_eq_none_of_bind {schema : Schema} {statement : Statement Reference}
    {bound : Statement BoundColumn} (h : statement.bind schema = .ok bound) {name : String}
    (hname : bound.newName? = some name) : schema.lookup name = none := by
  cases Statement.bound_of_bind h with
  | expression => cases hname
  | assign => cases hname
  | newColumn hfree =>
    obtain rfl := Option.some.inj hname
    exact hfree

theorem Statement.extend_ofNames (statement : Statement BoundColumn) (names : List String) :
    statement.extend (.ofNames names) = .ofNames (names ++ statement.newName?.toList) := by
  cases statement with
  | newColumn name e => exact (Schema.ofNames_concat names name).symm
  | _ => exact congrArg _ (List.append_nil names).symm

/-- Binding a script keeps names distinct. -/
theorem namesDistinct_of_bindStatements {names : List String}
    {statements : List (Statement Reference)} {bound : List (Statement BoundColumn)}
    {final : Schema} (h : bindStatements (.ofNames names) statements = .ok (bound, final))
    (hnames : NamesDistinct names) :
    NamesDistinct (names ++ bound.filterMap Statement.newName?) := by
  induction statements generalizing names bound with
  | nil =>
    cases h
    simpa using hnames
  | cons statement rest ih =>
    obtain ⟨first, others, hfirst, hothers, rfl⟩ := bindStatements_cons_eq_ok_iff.mp h
    rw [Statement.extend_ofNames] at hothers
    have hdistinct : NamesDistinct (names ++ first.newName?.toList) := by
      cases hnew : first.newName? with
      | none => simpa using hnames
      | some name =>
        have hfree := Statement.lookup_eq_none_of_bind hfirst hnew
        exact namesDistinct_concat hnames (Schema.lookup_ofNames_eq_none_iff.mp hfree)
    have hrest := ih hothers hdistinct
    rw [List.append_assoc] at hrest
    rw [List.filterMap_cons]
    cases hnew : first.newName? <;> rw [hnew] at hrest <;> exact hrest

end ColumnFormula
