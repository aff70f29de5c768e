import ColumnFormula.Proofs.Evaluation.Steps
import ColumnFormula.Proofs.Table.Programs
import Mathlib.Data.List.Forall2

/-!
# The columns of an expression

Binding a tree is one pass over its references from left to right (`map_references_resolve`) that
keeps everything else (`resolve_of_forall`), so the listed columns of a bound tree are columns of
the schema (`lt_width_of_mem_columns`). They are also all that evaluation reads: a tree with other
columns gives the same value or the same error on a row that shows the same cells in them
(`eval_mapReferences`), and so does the tree itself on two rows that agree on its columns
(`eval_congr`).
-/

set_option autoImplicit false
set_option relaxedAutoImplicit false

namespace ColumnFormula.Expr

/-! ### One pass over the references -/

section Resolve

variable {ρ σ ε : Type} {f : ρ → Except ε σ}

theorem map_referencesList_resolveList {es : List (Expr ρ)}
    (h : ∀ e ∈ es, (e.resolve f).map references = e.references.mapM f) :
    (resolveList f es).map referencesList = (referencesList es).mapM f := by
  induction es with
  | nil => rfl
  | cons e rest ih =>
    obtain ⟨he, hrest⟩ := List.forall_mem_cons.mp h
    rw [referencesList, List.mapM_append, ← he, ← ih hrest, resolveList]
    cases e.resolve f with
    | error error => rfl
    | ok b => cases resolveList f rest <;> rfl

/-- Resolving the references of a tree is a pass over the list of them: it gives the same columns
in the same order, or the same error. -/
theorem map_references_resolve (f : ρ → Except ε σ) (e : Expr ρ) :
    (e.resolve f).map references = e.references.mapM f := by
  induction e using treeInduction with
  | number | text | boolean | nil => rfl
  | reference column =>
    rw [resolve, references, List.mapM_cons]
    cases f column <;> rfl
  | binary op left right ihleft ihright =>
    rw [references, List.mapM_append, ← ihleft, ← ihright, resolve]
    cases left.resolve f with
    | error error => rfl
    | ok newLeft => cases right.resolve f <;> rfl
  | chain operands operators ih =>
    rw [references, ← map_referencesList_resolveList ih, resolve]
    cases resolveList f operands <;> rfl
  | call name args ih =>
    rw [references, ← map_referencesList_resolveList ih, resolve]
    cases resolveList f args <;> rfl

theorem forall₂_of_mapM {columns : List ρ} {results : List σ} (h : columns.mapM f = .ok results) :
    List.Forall₂ (fun column bound ↦ f column = .ok bound) columns results := by
  induction columns generalizing results with
  | nil =>
    obtain rfl : [] = results := Except.ok.inj h
    exact .nil
  | cons column rest ih =>
    rw [List.mapM_cons] at h
    obtain ⟨bound, hbound, hmap⟩ := bind_eq_ok_iff.mp h
    obtain ⟨others, hothers, rfl⟩ := map_eq_ok_iff.mp hmap
    exact .cons hbound (ih hothers)

/-- The references of a tree and of the tree that binding makes of it correspond one by one. -/
theorem forall₂_references_of_resolve {e : Expr ρ} {b : Expr σ} (h : e.resolve f = .ok b) :
    List.Forall₂ (fun column bound ↦ f column = .ok bound) e.references b.references := by
  have hpass := map_references_resolve f e
  rw [h] at hpass
  exact forall₂_of_mapM hpass.symm

end Resolve

/-! ### Replacing references -/

section Replace

variable {ρ σ ε : Type}

mutual

/-- The tree with every reference replaced and everything else kept. -/
def mapReferences (g : ρ → σ) : Expr ρ → Expr σ
  | .number value => .number value
  | .text content => .text content
  | .boolean value => .boolean value
  | .nil => .nil
  | .reference column => .reference (g column)
  | .binary op left right => .binary op (left.mapReferences g) (right.mapReferences g)
  | .chain operands operators => .chain (mapReferencesList g operands) operators
  | .call name args => .call name (mapReferencesList g args)

def mapReferencesList (g : ρ → σ) : List (Expr ρ) → List (Expr σ)
  | [] => []
  | e :: rest => e.mapReferences g :: mapReferencesList g rest

end

theorem mapReferencesList_eq_map (g : ρ → σ) (es : List (Expr ρ)) :
    mapReferencesList g es = es.map (mapReferences g) := by
  induction es with
  | nil => rfl
  | cons e rest ih => rw [mapReferencesList, ih, List.map_cons]

theorem mapReferences_id (e : Expr ρ) : e.mapReferences id = e := by
  induction e using treeInduction with
  | number | text | boolean | nil | reference => rfl
  | binary op left right ihleft ihright => rw [mapReferences, ihleft, ihright]
  | chain operands operators ih =>
    rw [mapReferences, mapReferencesList_eq_map, List.map_congr_left ih, List.map_id']
  | call name args ih =>
    rw [mapReferences, mapReferencesList_eq_map, List.map_congr_left ih, List.map_id']

theorem resolveList_of_forall {f : ρ → Except ε σ} {g : ρ → σ} {es : List (Expr ρ)}
    (h : ∀ e ∈ es, e.resolve f = .ok (e.mapReferences g)) :
    resolveList f es = .ok (mapReferencesList g es) := by
  induction es with
  | nil => rfl
  | cons e rest ih =>
    obtain ⟨he, hrest⟩ := List.forall_mem_cons.mp h
    rw [resolveList, he, ih hrest]
    rfl

theorem mem_referencesList {column : ρ} {es : List (Expr ρ)} :
    column ∈ referencesList es ↔ ∃ e ∈ es, column ∈ e.references := by
  induction es with
  | nil => simp [referencesList]
  | cons e rest ih => simp [referencesList, ih]

/-- Where every reference resolves, the tree is kept apart from its references. -/
theorem resolve_of_forall {f : ρ → Except ε σ} {g : ρ → σ} {e : Expr ρ}
    (h : ∀ column ∈ e.references, f column = .ok (g column)) :
    e.resolve f = .ok (e.mapReferences g) := by
  induction e using treeInduction with
  | number | text | boolean | nil => rfl
  | reference column =>
    rw [resolve, h column (List.mem_singleton_self column)]
    rfl
  | binary op left right ihleft ihright =>
    have hleft := ihleft fun column hcolumn ↦ h column (List.mem_append_left _ hcolumn)
    have hright := ihright fun column hcolumn ↦ h column (List.mem_append_right _ hcolumn)
    rw [resolve, hleft, hright]
    rfl
  | chain operands operators ih =>
    have hoperands := resolveList_of_forall fun e he ↦
      ih e he fun column hcolumn ↦ h column (mem_referencesList.mpr ⟨e, he, hcolumn⟩)
    rw [resolve, hoperands]
    rfl
  | call name args ih =>
    have hargs := resolveList_of_forall fun e he ↦
      ih e he fun column hcolumn ↦ h column (mem_referencesList.mpr ⟨e, he, hcolumn⟩)
    rw [resolve, hargs]
    rfl

theorem references_mapReferences (g : ρ → σ) (e : Expr ρ) :
    (e.mapReferences g).references = e.references.map g := by
  let f : ρ → Except Unit σ := fun column ↦ .ok (g column)
  have hresolve : e.resolve f = .ok (e.mapReferences g) := resolve_of_forall fun _ _ ↦ rfl
  have hpass := map_references_resolve f e
  rw [hresolve] at hpass
  exact Except.ok.inj (hpass.trans List.mapM_pure)

end Replace

/-! ### Listed columns -/

theorem mem_columns {e : Expr BoundColumn} {index : Nat} :
    index ∈ e.columns ↔ ∃ column ∈ e.references, column.index = index := by
  rw [columns, List.mem_eraseDups, List.mem_map]

theorem nodup_eraseDups {indices : List Nat} : indices.eraseDups.Nodup := by
  generalize hlength : indices.length = n
  induction n using Nat.strongRecOn generalizing indices with
  | ind n ih =>
    cases indices with
    | nil => exact List.nodup_nil
    | cons index rest =>
      rw [List.eraseDups_cons]
      refine List.nodup_cons.mpr ⟨?_, ih _ ?_ rfl⟩
      · rw [List.mem_eraseDups, List.mem_filter]
        simp
      · have hfilter := List.length_filter_le (fun other ↦ !other == index) rest
        rw [← hlength, List.length_cons]
        exact Nat.lt_succ_of_le hfilter

/-- The list names no column twice. -/
theorem nodup_columns (e : Expr BoundColumn) : e.columns.Nodup := nodup_eraseDups

/-- Columns that references resolve to are columns of the schema. -/
theorem index_lt_of_forall₂_resolve {schema : Schema} {references : List Reference}
    {columns : List BoundColumn}
    (h : List.Forall₂ (fun reference column ↦ schema.resolve reference = .ok column)
      references columns) : ∀ column ∈ columns, column.index < schema.width := by
  induction h with
  | nil => exact nofun
  | cons hresolve _ ih => exact List.forall_mem_cons.mpr ⟨Schema.index_lt_of_resolve hresolve, ih⟩

/-- All columns of a bound tree are columns of the schema. -/
theorem lt_width_of_mem_columns {e : Expr Reference} {b : Expr BoundColumn} {schema : Schema}
    (h : e.bind schema = .ok b) : ∀ index ∈ b.columns, index < schema.width := by
  intro index hindex
  obtain ⟨column, hcolumn, rfl⟩ := mem_columns.mp hindex
  exact index_lt_of_forall₂_resolve (forall₂_references_of_resolve h) column hcolumn

/-! ### What evaluation reads -/

section Eval

variable {first second : Row} {g : BoundColumn → BoundColumn}

theorem evalList_mapReferences {es : List (Expr BoundColumn)}
    (h : ∀ e ∈ es, (e.mapReferences g).eval second = e.eval first) :
    evalList second (es.map (mapReferences g)) = evalList first es := by
  induction es with
  | nil => rfl
  | cons e rest ih =>
    obtain ⟨he, hrest⟩ := List.forall_mem_cons.mp h
    rw [List.map_cons, evalList, evalList, he, ih hrest]

theorem evalLinks_mapReferences {es : List (Expr BoundColumn)}
    (h : ∀ e ∈ es, (e.mapReferences g).eval second = e.eval first) (left : Value)
    (operators : List Comparison) :
    evalLinks second left operators (es.map (mapReferences g)) =
      evalLinks first left operators es := by
  induction es generalizing left operators with
  | nil => cases operators <;> rfl
  | cons e rest ih =>
    obtain ⟨he, hrest⟩ := List.forall_mem_cons.mp h
    cases operators with
    | nil => rfl
    | cons op operators =>
      rw [List.map_cons, evalLinks, evalLinks, he]
      congr 1
      funext right
      rw [ih hrest]

/-- A tree with other columns gives the same result on another row if each column finds there the
cell that the column in its place had. -/
theorem eval_mapReferences {e : Expr BoundColumn}
    (h : ∀ column ∈ e.references, second (g column).index = first column.index) :
    (e.mapReferences g).eval second = e.eval first := by
  induction e using treeInduction with
  | number | text | boolean | nil => rfl
  | reference column => exact congrArg Except.ok (h column (List.mem_singleton_self column))
  | binary op left right ihleft ihright =>
    have hleft := ihleft fun column hcolumn ↦ h column (List.mem_append_left _ hcolumn)
    have hright := ihright fun column hcolumn ↦ h column (List.mem_append_right _ hcolumn)
    rw [mapReferences]
    cases op <;> simp only [eval, hleft, hright]
  | chain operands operators ih =>
    have hoperands : ∀ e ∈ operands, (e.mapReferences g).eval second = e.eval first := fun e he ↦
      ih e he fun column hcolumn ↦ h column (mem_referencesList.mpr ⟨e, he, hcolumn⟩)
    rw [mapReferences, mapReferencesList_eq_map]
    cases operands with
    | nil => rfl
    | cons e rest =>
      obtain ⟨he, hrest⟩ := List.forall_mem_cons.mp hoperands
      rw [List.map_cons, eval, eval, he]
      simp only [evalLinks_mapReferences hrest]
  | call name args ih =>
    have hargs : ∀ e ∈ args, (e.mapReferences g).eval second = e.eval first := fun e he ↦
      ih e he fun column hcolumn ↦ h column (mem_referencesList.mpr ⟨e, he, hcolumn⟩)
    have hlength : (args.map (mapReferences g)).length = args.length := List.length_map _
    rw [mapReferences, mapReferencesList_eq_map]
    cases callKind name args with
    | unknown hname => rw [eval_call_unknown hname, eval_call_unknown hname]
    | rejected f hname harity =>
      rw [eval_call_rejected hname harity, eval_call_rejected hname (hlength ▸ harity), hlength]
    | ifThenElse condition yes no hname heq =>
      subst heq
      rw [List.map_cons, List.map_cons, List.map_cons, List.map_nil, eval_call_ifThenElse hname,
        eval_call_ifThenElse hname, hargs condition (by simp), hargs yes (by simp),
        hargs no (by simp)]
    | ifNil e fallback hname heq =>
      subst heq
      rw [List.map_cons, List.map_cons, List.map_nil, eval_call_ifNil hname,
        eval_call_ifNil hname, hargs e (by simp), hargs fallback (by simp)]
    | strict f hname hlazy harity =>
      rw [eval_call_strict hname hlazy harity,
        eval_call_strict hname hlazy (hlength ▸ harity), evalList_mapReferences hargs]

/-- On rows that agree on the columns of a tree, evaluation gives the same result. -/
theorem eval_congr_of_references {e : Expr BoundColumn}
    (h : ∀ column ∈ e.references, first column.index = second column.index) :
    e.eval first = e.eval second := by
  have hmap : (e.mapReferences id).eval second = e.eval first :=
    eval_mapReferences fun column hcolumn ↦ (h column hcolumn).symm
  rw [← hmap, mapReferences_id]

/-- Evaluation reads only the listed columns. -/
theorem eval_congr {e : Expr BoundColumn} (h : ∀ index ∈ e.columns, first index = second index) :
    e.eval first = e.eval second :=
  eval_congr_of_references fun column hcolumn ↦
    h column.index (mem_columns.mpr ⟨column, hcolumn, rfl⟩)

end Eval

end ColumnFormula.Expr
