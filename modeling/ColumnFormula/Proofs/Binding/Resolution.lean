import ColumnFormula.Proofs.Binding.NameLists
import ColumnFormula.Proofs.Expr.Height
import ColumnFormula.Proofs.Table.Environment

/-!
# Binding from left to right

Since binding a formula is a pass over its references, it fails where the pass fails, with the error
of the first reference that does not bind by itself (`Expr.resolve_eq_error_iff`); otherwise it
gives the same tree with a column in the place of each reference. The pass leaves no reference out,
however deep in the tree it stands (`Expr.isPart_reference_iff`). Statements are bound by the same
pass, the target of an assignment in front of its value (`Statement.map_references_bind`); only the
name of a new column comes before it, and it is refused exactly if some column has it
(`Schema.isSome_lookup_iff`). `Schema.bindsInOrder` puts this together.
-/

set_option autoImplicit false
set_option relaxedAutoImplicit false

namespace ColumnFormula

namespace Expr

section Tree

variable {ρ σ ε : Type}

/-! ### References of a tree -/

theorem isPart_iff {part e : Expr ρ} :
    part.IsPart e ↔ part = e ∨ ∃ child ∈ e.children, part.IsPart child := by
  constructor
  · rintro (_ | ⟨hmem, h⟩)
    · exact .inl rfl
    · exact .inr ⟨_, hmem, h⟩
  · rintro (rfl | ⟨child, hmem, h⟩)
    · exact .refl part
    · exact .child hmem h

theorem mem_references_iff {column : ρ} {e : Expr ρ} :
    column ∈ e.references ↔
      reference column = e ∨ ∃ child ∈ e.children, column ∈ child.references := by
  cases e with
  | binary op left right => simp [references, children]
  | chain operands operators => simp [references, children, mem_referencesList]
  | call name args => simp [references, children, mem_referencesList]
  | _ => simp [references, children]

/-- The listed references are the leaves of the tree that are references. -/
theorem isPart_reference_iff {column : ρ} {e : Expr ρ} :
    (reference column).IsPart e ↔ column ∈ e.references := by
  have hstep : ∀ e : Expr ρ, (∀ child ∈ e.children,
      ((reference column).IsPart child ↔ column ∈ child.references)) →
      ((reference column).IsPart e ↔ column ∈ e.references) := by
    intro e hchildren
    rw [isPart_iff, mem_references_iff]
    exact or_congr_right (exists_congr fun child ↦ and_congr_right (hchildren child))
  induction e using treeInduction with
  | binary op left right ihleft ihright => exact hstep _ (by simp [children, ihleft, ihright])
  | chain operands operators ih => exact hstep _ ih
  | call name args ih => exact hstep _ ih
  | _ => exact hstep _ (by simp [children])

/-! ### Where a pass fails -/

variable {f : ρ → Except ε σ}

theorem resolve_eq_error_iff {e : Expr ρ} {error : ε} :
    e.resolve f = .error error ↔ FailsFirst f e.references error := by
  rw [← mapM_eq_error_iff, ← map_references_resolve, map_eq_error_iff]

theorem exists_resolve_eq_ok_iff {e : Expr ρ} :
    (∃ b, e.resolve f = .ok b) ↔ ∀ column ∈ e.references, ∃ bound, f column = .ok bound := by
  rw [← exists_mapM_eq_ok_iff, ← map_references_resolve, exists_map_eq_ok_iff]

end Tree

end Expr

/-! ### Names of a schema -/

namespace Schema

/-- Some column has the name; the empty name is no name. -/
def HasName (schema : Schema) (name : String) : Prop :=
  name ≠ "" ∧ ∃ index, schema.nameOf index = some name

/-- A name is found exactly if some column has it. -/
theorem isSome_lookup_iff {schema : Schema} {name : String} :
    (schema.lookup name).isSome = true ↔ schema.HasName name := by
  rw [Option.isSome_iff_exists]
  constructor
  · rintro ⟨index, hindex⟩
    obtain ⟨hname, hnamed, -⟩ := lookup_eq_some_iff.mp hindex
    exact ⟨hname, index, hnamed⟩
  · rintro ⟨hname, index, hindex⟩
    exact Option.isSome_iff_exists.mp
      (isSome_lookup_of_mem hname ((nameOf_eq_some_iff_mem hname).mp hindex))

end Schema

/-! ### References by themselves -/

section Alone

variable {schema : Schema} {references : List Reference} {error : BindError}

/-- What binding a reference gives when it is taken by itself. -/
def Schema.bindAlone (schema : Schema) (reference : Reference) :
    Except BindError (Expr BoundColumn) :=
  (Expr.reference reference).bind schema

theorem Schema.bindAlone_eq (schema : Schema) (reference : Reference) :
    schema.bindAlone reference = (schema.resolve reference).map .reference := rfl

theorem Schema.exists_bindAlone_eq_ok_iff {reference : Reference} :
    (∃ b, schema.bindAlone reference = .ok b) ↔
      ∃ column, schema.resolve reference = .ok column := exists_map_eq_ok_iff

theorem Schema.failsFirst_bindAlone_iff :
    FailsFirst schema.bindAlone references error ↔
      FailsFirst schema.resolve references error := failsFirst_map_iff

end Alone

/-! ### Formulas and statements -/

namespace Statement

variable {schema : Schema} {statement : Statement Reference}

/-- The statement appends no column whose name the schema has already. -/
def IsFree (schema : Schema) : Statement Reference → Prop
  | .newColumn name _ => ¬schema.HasName name
  | _ => True

theorem bind_newColumn_of_hasName {name : String} (h : schema.HasName name)
    (value : Expr Reference) :
    (Statement.newColumn name value).bind schema = .error (.duplicateColumn name) := by
  rw [bind, if_pos (Schema.isSome_lookup_iff.mpr h)]

/-- Unless its name is taken, a statement binds by a pass over its references. -/
theorem map_references_bind (h : statement.IsFree schema) :
    (statement.bind schema).map references = statement.references.mapM schema.resolve := by
  have hvalue : ∀ value : Expr Reference,
      (value.bind schema).map Expr.references = value.references.mapM schema.resolve :=
    Expr.map_references_resolve schema.resolve
  cases statement with
  | expression value =>
    rw [bind, references, ← hvalue]
    cases value.bind schema <;> rfl
  | assign target value =>
    rw [bind, references, List.mapM_cons, ← hvalue]
    cases schema.resolve target with
    | error error => rfl
    | ok column => cases value.bind schema <;> rfl
  | newColumn name value =>
    rw [bind, if_neg fun hsome ↦ h (Schema.isSome_lookup_iff.mp hsome), references, ← hvalue]
    cases value.bind schema <;> rfl

theorem bind_eq_error_iff {error : BindError} (h : statement.IsFree schema) :
    statement.bind schema = .error error ↔
      FailsFirst schema.resolve statement.references error := by
  rw [← mapM_eq_error_iff, ← map_references_bind h, map_eq_error_iff]

theorem exists_bind_eq_ok_iff (h : statement.IsFree schema) :
    (∃ bound, statement.bind schema = .ok bound) ↔
      ∀ reference ∈ statement.references, ∃ column, schema.resolve reference = .ok column := by
  rw [← exists_mapM_eq_ok_iff, ← map_references_bind h, exists_map_eq_ok_iff]

end Statement

/-- What binding formulas and statements to a schema gives. -/
structure Schema.BindsInOrder (schema : Schema) : Prop where
  /-- A formula binds exactly if every reference that stands in it binds by itself. -/
  isOk_iff : ∀ e : Expr Reference, (∃ b, e.bind schema = .ok b) ↔
    ∀ reference, (Expr.reference reference).IsPart e → ∃ b, schema.bindAlone reference = .ok b
  /-- A formula that binds is kept, with the column in the place of each reference to which that
  reference binds by itself. -/
  kept : ∀ (e : Expr Reference) (b : Expr BoundColumn), e.bind schema = .ok b →
    ∃ column : Reference → BoundColumn, b = e.mapReferences column ∧
      ∀ reference, (Expr.reference reference).IsPart e →
        schema.bindAlone reference = .ok (.reference (column reference)) ∧
          (column reference).index < schema.width
  /-- The references of a formula are listed from left to right; the first one that does not bind
  by itself gives the error. -/
  error_iff : ∀ (e : Expr Reference) (error : BindError), e.bind schema = .error error ↔
    FailsFirst schema.bindAlone e.references error
  /-- The name of a new column is looked at before its value. -/
  taken : ∀ name, schema.HasName name → ∀ value : Expr Reference,
    (Statement.newColumn name value).bind schema = .error (.duplicateColumn name)
  statement_isOk_iff : ∀ statement : Statement Reference, statement.IsFree schema →
    ((∃ bound, statement.bind schema = .ok bound) ↔
      ∀ reference ∈ statement.references, ∃ b, schema.bindAlone reference = .ok b)
  /-- The target of an assignment comes before the references of its value. -/
  statement_error_iff : ∀ statement : Statement Reference, statement.IsFree schema →
    ∀ error, statement.bind schema = .error error ↔
      FailsFirst schema.bindAlone statement.references error

/-- Formulas and statements bind reference by reference, from left to right. -/
theorem Schema.bindsInOrder (schema : Schema) : schema.BindsInOrder where
  isOk_iff e := by
    simp only [exists_bindAlone_eq_ok_iff, Expr.isPart_reference_iff]
    exact Expr.exists_resolve_eq_ok_iff
  kept e b h := by
    -- What stands for a reference that does not resolve makes no difference: there is none.
    let column := fun reference ↦ (schema.resolve reference).toOption.getD ⟨0, ""⟩
    have hresolve : ∀ reference ∈ e.references,
        schema.resolve reference = .ok (column reference) := by
      intro reference hreference
      obtain ⟨found, hfound⟩ := Expr.exists_resolve_eq_ok_iff.mp ⟨b, h⟩ reference hreference
      simp only [column, hfound]
      rfl
    refine ⟨column, Except.ok.inj (h.symm.trans (Expr.resolve_of_forall hresolve)), ?_⟩
    intro reference hpart
    have hcolumn := hresolve reference (Expr.isPart_reference_iff.mp hpart)
    refine ⟨?_, index_lt_of_resolve hcolumn⟩
    rw [bindAlone_eq, hcolumn]
    rfl
  error_iff e error := by
    rw [failsFirst_bindAlone_iff]
    exact Expr.resolve_eq_error_iff
  taken name h value := Statement.bind_newColumn_of_hasName h value
  statement_isOk_iff statement h := by
    simp only [exists_bindAlone_eq_ok_iff]
    exact Statement.exists_bind_eq_ok_iff h
  statement_error_iff statement h error := by
    rw [failsFirst_bindAlone_iff]
    exact Statement.bind_eq_error_iff h

end ColumnFormula
