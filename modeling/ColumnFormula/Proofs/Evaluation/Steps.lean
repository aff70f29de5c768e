import ColumnFormula.Evaluation
import Mathlib.Data.List.Basic

/-!
# How a tree is evaluated

The recursion of `Expr.eval` in the form that later modules cite. `Expr.treeInduction` is induction
over a tree whose nodes hold lists of trees. A call has one of five kinds (`CallKind`): its name is
unknown, its arguments are too few or too many, it chooses between its arguments (`IF`, `IFNIL`), or
it evaluates all of them; there is one equation for each kind.
-/

set_option autoImplicit false
set_option relaxedAutoImplicit false

namespace ColumnFormula

namespace Expr

/-- Induction over a tree: the claim may be used for every direct subexpression. -/
@[elab_as_elim]
theorem treeInduction {ρ : Type} {motive : Expr ρ → Prop}
    (number : ∀ value, motive (.number value)) (text : ∀ content, motive (.text content))
    (boolean : ∀ value, motive (.boolean value)) (nil : motive .nil)
    (reference : ∀ column, motive (.reference column))
    (binary : ∀ op left right, motive left → motive right → motive (.binary op left right))
    (chain : ∀ operands operators, (∀ e ∈ operands, motive e) → motive (.chain operands operators))
    (call : ∀ name args, (∀ e ∈ args, motive e) → motive (.call name args)) (e : Expr ρ) :
    motive e :=
  @Expr.rec ρ motive (fun es ↦ ∀ e ∈ es, motive e) number text boolean nil reference binary chain
    call nofun (fun _ _ hfirst hrest ↦ List.forall_mem_cons.mpr ⟨hfirst, hrest⟩) e

end Expr

/-! ### Kinds of calls -/

/-- What decides how a call is evaluated. -/
inductive CallKind {ρ : Type} (name : String) (args : List (Expr ρ)) : Prop
  | unknown (hname : Builtin.ofName? name = none)
  | rejected (f : Builtin) (hname : Builtin.ofName? name = some f)
      (harity : f.arity.accepts args.length = false)
  | ifThenElse (condition yes no : Expr ρ) (hname : Builtin.ofName? name = some .ifThenElse)
      (hargs : args = [condition, yes, no])
  | ifNil (e fallback : Expr ρ) (hname : Builtin.ofName? name = some .ifNil)
      (hargs : args = [e, fallback])
  | strict (f : Builtin) (hname : Builtin.ofName? name = some f) (hlazy : f.isLazy = false)
      (harity : f.arity.accepts args.length = true)

theorem callKind {ρ : Type} (name : String) (args : List (Expr ρ)) : CallKind name args := by
  cases hname : Builtin.ofName? name with
  | none => exact .unknown hname
  | some f =>
    cases harity : f.arity.accepts args.length with
    | false => exact .rejected f hname harity
    | true =>
      cases f with
      | ifThenElse =>
        obtain ⟨condition, yes, no, hargs⟩ := List.length_eq_three.mp (of_decide_eq_true harity)
        exact .ifThenElse condition yes no hname hargs
      | ifNil =>
        obtain ⟨e, fallback, hargs⟩ := List.length_eq_two.mp (of_decide_eq_true harity)
        exact .ifNil e fallback hname hargs
      | _ => exact .strict _ hname rfl harity

namespace Expr

variable {row : Row} {name : String} {args : List (Expr BoundColumn)} {f : Builtin}

theorem eval_call_unknown (hname : Builtin.ofName? name = none) :
    eval row (.call name args) = .error (.unknownFunction name) := by
  rw [eval, hname]

theorem eval_call_rejected (hname : Builtin.ofName? name = some f)
    (harity : f.arity.accepts args.length = false) :
    eval row (.call name args) = .error (.wrongArity f args.length) := by
  rw [eval, hname]
  simp only [harity, Bool.false_eq_true, if_false]

theorem eval_call_ifThenElse {condition yes no : Expr BoundColumn}
    (hname : Builtin.ofName? name = some .ifThenElse) :
    eval row (.call name [condition, yes, no]) = (do
      if ← (← condition.eval row).truth .condition then yes.eval row else no.eval row) := by
  rw [eval, hname]
  rfl

theorem eval_call_ifNil {e fallback : Expr BoundColumn}
    (hname : Builtin.ofName? name = some .ifNil) :
    eval row (.call name [e, fallback]) = (do
      let value ← e.eval row
      if value.isNil then fallback.eval row else .ok value) := by
  rw [eval, hname]
  rfl

theorem eval_call_strict (hname : Builtin.ofName? name = some f) (hlazy : f.isLazy = false)
    (harity : f.arity.accepts args.length = true) :
    eval row (.call name args) = (do
      let values ← evalList row args
      f.apply values) := by
  rw [eval, hname]
  simp only [harity, if_true]
  split
  · cases hlazy
  · cases hlazy
  · rfl

end Expr

end ColumnFormula
