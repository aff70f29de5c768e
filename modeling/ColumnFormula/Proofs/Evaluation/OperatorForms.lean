import ColumnFormula.Proofs.Evaluation.Chains
import ColumnFormula.Proofs.Evaluation.Steps

/-!
# Functions and their operator forms

`CONCAT`, `AND` and `OR` say for any number of arguments what an operator says for two. The operator
form of such a call joins the arguments by the operator, nested to the left (`Expr.joined`). A call
evaluates all of its arguments and then looks at the list of their values; the operator form looks
at each operand as soon as it has a value, and a connective stops where the outcome is settled.

For texts this makes no difference: the text joined so far is the invariant, and the operator form
goes on to append the arguments that are left, or fails with the first of them that fails
(`Expr.eval_joined_concat`). A connective may stop in front of an argument at which the call fails.
So only this holds: a call that gives a truth value had nothing but truth values as arguments
(`Expr.evalList_truths_eq_ok_iff`), and on those the operator form gives the same
(`Expr.eval_joined_of_booleans`).
-/

set_option autoImplicit false
set_option relaxedAutoImplicit false

namespace ColumnFormula

/-! ### Truth values of arguments -/

theorem Value.truth_eq_ok_iff {use : OperandUse} {value : Value} {b : Bool} :
    value.truth use = .ok b ↔ value = .boolean b := by
  cases value <;> simp [truth, asBoolean?]

theorem truths_eq_ok_iff {use : OperandUse} {values : List Value} {bs : List Bool} :
    truths use values = .ok bs ↔ values = bs.map .boolean := by
  induction values generalizing bs with
  | nil => simp [truths, eq_comm]
  | cons value rest ih =>
    rw [truths, bind_eq_ok_iff]
    constructor
    · rintro ⟨b, hb, hrest⟩
      obtain ⟨others, hothers, hbs⟩ := bind_eq_ok_iff.mp hrest
      obtain rfl := Except.ok.inj hbs
      rw [Value.truth_eq_ok_iff.mp hb, ih.mp hothers, List.map_cons]
    · intro h
      obtain ⟨b, others, rfl, hb, hothers⟩ := List.map_eq_cons_iff.mp h.symm
      exact ⟨b, Value.truth_eq_ok_iff.mpr hb.symm,
        bind_eq_ok_iff.mpr ⟨others, ih.mpr hothers.symm, rfl⟩⟩

theorem all_cons_eq_foldl (b : Bool) (bs : List Bool) : (b :: bs).all id = bs.foldl and b := by
  induction bs generalizing b with
  | nil => simp
  | cons c rest ih => simp [← ih, Bool.and_assoc]

theorem any_cons_eq_foldl (b : Bool) (bs : List Bool) : (b :: bs).any id = bs.foldl or b := by
  induction bs generalizing b with
  | nil => simp
  | cons c rest ih => simp [← ih, Bool.or_assoc]

/-- A call with an argument has enough of them for a function that takes any number but none. -/
theorem Arity.accepts_length_cons {α : Type} (first : α) (rest : List α) :
    (Arity.atLeast 1).accepts (first :: rest).length = true :=
  decide_eq_true (Nat.le_add_left 1 rest.length)

namespace Expr

/-- Operands joined by an operator, nested to the left. -/
def joined {ρ : Type} (op : BinaryOp) (first : Expr ρ) (rest : List (Expr ρ)) : Expr ρ :=
  rest.foldl (.binary op) first

variable {row : Row} {first left right : Expr BoundColumn}

/-! ### Joining texts -/

/-- Every operator evaluates its left operand first. -/
theorem eval_binary_of_error {error : EvalError} (h : left.eval row = .error error)
    (op : BinaryOp) (right : Expr BoundColumn) :
    (binary op left right).eval row = .error error := by
  cases op <;> simp only [eval, h] <;> rfl

theorem eval_joined_of_error {error : EvalError} (h : first.eval row = .error error)
    (op : BinaryOp) (rest : List (Expr BoundColumn)) :
    (joined op first rest).eval row = .error error := by
  induction rest generalizing first with
  | nil => exact h
  | cons e rest ih => exact ih (eval_binary_of_error h op e)

theorem eval_joined_congr (h : left.eval row = right.eval row) (op : BinaryOp)
    (rest : List (Expr BoundColumn)) :
    (joined op left rest).eval row = (joined op right rest).eval row := by
  induction rest generalizing left right with
  | nil => exact h
  | cons e rest ih =>
    have hstep : (binary op left e).eval row = (binary op right e).eval row := by
      cases op <;> simp only [eval, h]
    exact ih hstep

theorem eval_concat (left right : Expr BoundColumn) :
    (binary .concat left right).eval row = (do
      let a ← left.eval row
      let b ← right.eval row
      .ok (.text (a.render ++ b.render))) := by
  simp only [eval, BinaryOp.apply]

/-- Behind operands that make a text, the others are appended in order. -/
theorem eval_joined_concat {content : String} (h : first.eval row = .ok (.text content))
    (rest : List (Expr BoundColumn)) :
    (joined .concat first rest).eval row = (evalList row rest).map fun values ↦
      .text (content ++ String.join (values.map Value.render)) := by
  induction rest generalizing first content with
  | nil => simpa [joined, evalList, Except.map] using h
  | cons e rest ih =>
    rw [evalList]
    cases he : e.eval row with
    | error error =>
      have hpair : (binary .concat first e).eval row = .error error := by
        rw [eval_concat, h, he]
        rfl
      exact eval_joined_of_error hpair .concat rest
    | ok value =>
      have hpair : (binary .concat first e).eval row = .ok (.text (content ++ value.render)) := by
        rw [eval_concat, h, he]
        rfl
      refine (ih hpair).trans ?_
      cases evalList row rest with
      | error error => rfl
      | ok values =>
        have htext : content ++ value.render ++ String.join (values.map Value.render) =
            content ++ String.join ((value :: values).map Value.render) := by
          rw [List.map_cons, String.join_cons, String.append_assoc]
        exact congrArg (Except.ok ∘ Value.text) htext

/-- A call that joins texts evaluates like its operator form, to the same text or the same error. -/
theorem eval_call_concat {name : String} (hname : Builtin.ofName? name = some .concat)
    (first second : Expr BoundColumn) (rest : List (Expr BoundColumn)) :
    (call name (first :: second :: rest)).eval row =
      (joined .concat first (second :: rest)).eval row := by
  -- In front of all operands stands the empty text, so that the text joined so far is one.
  have hpair : (binary .concat (binary .concat (.text "") first) second).eval row =
      (binary .concat first second).eval row := by
    rw [eval_concat, eval_concat, eval_concat]
    cases first.eval row with
    | error error => rfl
    | ok a => simp only [eval, ok_bind, Value.render, String.empty_append]
  calc (call name (first :: second :: rest)).eval row
      = (evalList row (first :: second :: rest)).map fun values ↦
          .text (String.join (values.map Value.render)) := by
        rw [eval_call_strict hname rfl (Arity.accepts_length_cons first _)]
        cases evalList row (first :: second :: rest) <;> rfl
    _ = (joined .concat (.text "") (first :: second :: rest)).eval row := by
        rw [eval_joined_concat rfl]
        simp only [String.empty_append]
    _ = (joined .concat first (second :: rest)).eval row :=
        eval_joined_congr hpair .concat rest

/-! ### Connectives -/

/-- Arguments that are truth values are so one by one. -/
theorem evalList_cons_eq_booleans {e : Expr BoundColumn} {rest : List (Expr BoundColumn)}
    {bs : List Bool} (h : evalList row (e :: rest) = .ok (bs.map .boolean)) :
    ∃ b others, bs = b :: others ∧ e.eval row = .ok (.boolean b) ∧
      evalList row rest = .ok (others.map .boolean) := by
  rw [evalList] at h
  obtain ⟨value, he, hbehind⟩ := bind_eq_ok_iff.mp h
  obtain ⟨values, hrest, heq⟩ := bind_eq_ok_iff.mp hbehind
  obtain ⟨b, others, rfl, rfl, rfl⟩ := List.map_eq_cons_iff.mp (Except.ok.inj heq).symm
  exact ⟨b, others, rfl, he, hrest⟩

/-- What two truth values become at an operator, all operands of a joined tree become in order. -/
theorem eval_joined_of_booleans {op : BinaryOp} {combine : Bool → Bool → Bool}
    (hstep : ∀ {left right : Expr BoundColumn} {a b : Bool}, left.eval row = .ok (.boolean a) →
      right.eval row = .ok (.boolean b) →
        (binary op left right).eval row = .ok (.boolean (combine a b)))
    {a : Bool} (hfirst : first.eval row = .ok (.boolean a)) {rest : List (Expr BoundColumn)}
    {bs : List Bool} (hrest : evalList row rest = .ok (bs.map .boolean)) :
    (joined op first rest).eval row = .ok (.boolean (bs.foldl combine a)) := by
  induction rest generalizing first a bs with
  | nil =>
    obtain rfl := List.map_eq_nil_iff.mp (Except.ok.inj hrest).symm
    exact hfirst
  | cons e rest ih =>
    obtain ⟨b, others, rfl, he, hbehind⟩ := evalList_cons_eq_booleans hrest
    exact ih (hstep hfirst he) hbehind

theorem eval_and_of_booleans {a b : Bool} (hleft : left.eval row = .ok (.boolean a))
    (hright : right.eval row = .ok (.boolean b)) :
    (binary .and left right).eval row = .ok (.boolean (a && b)) := by
  rw [eval, hleft, hright]
  cases a <;> rfl

theorem eval_or_of_booleans {a b : Bool} (hleft : left.eval row = .ok (.boolean a))
    (hright : right.eval row = .ok (.boolean b)) :
    (binary .or left right).eval row = .ok (.boolean (a || b)) := by
  rw [eval, hleft, hright]
  cases a <;> rfl

/-- A call that combines the truth values of all its arguments gives a value exactly if all of them
are truth values. -/
theorem evalList_truths_eq_ok_iff {use : OperandUse} {outcome : List Bool → Bool}
    {args : List (Expr BoundColumn)} {value : Value} :
    (do
      let values ← evalList row args
      let bs ← truths use values
      .ok (.boolean (outcome bs))) = Except.ok value ↔
      ∃ bs : List Bool, evalList row args = .ok (bs.map .boolean) ∧
        value = .boolean (outcome bs) := by
  rw [bind_eq_ok_iff]
  constructor
  · rintro ⟨values, hvalues, h⟩
    obtain ⟨bs, hbs, hvalue⟩ := bind_eq_ok_iff.mp h
    exact ⟨bs, truths_eq_ok_iff.mp hbs ▸ hvalues, (Except.ok.inj hvalue).symm⟩
  · rintro ⟨bs, hvalues, rfl⟩
    exact ⟨_, hvalues, bind_eq_ok_iff.mpr ⟨bs, truths_eq_ok_iff.mpr rfl, rfl⟩⟩

/-- A call that evaluates all of its arguments against its operator form, which stops where the
outcome is settled; `outcome` is the truth value of the whole. -/
structure StricterForm (row : Row) (name : String) (op : BinaryOp) (outcome : List Bool → Bool) :
    Prop where
  value_iff : ∀ (first : Expr BoundColumn) (rest : List (Expr BoundColumn)) (value : Value),
    (call name (first :: rest)).eval row = .ok value ↔
      ∃ bs : List Bool, evalList row (first :: rest) = .ok (bs.map .boolean) ∧
        value = .boolean (outcome bs)
  agrees : ∀ (first : Expr BoundColumn) (rest : List (Expr BoundColumn)) (value : Value),
    (call name (first :: rest)).eval row = .ok value →
      (joined op first rest).eval row = .ok value
  fails : ∀ (first : Expr BoundColumn) (rest : List (Expr BoundColumn)),
    (∃ error, (joined op first rest).eval row = .error error) →
      ∃ error, (call name (first :: rest)).eval row = .error error

/-- An operator form that gives the outcome of truth values gives every value of the call. -/
theorem stricterForm {name : String} {op : BinaryOp} {outcome : List Bool → Bool}
    (hcall : ∀ (first : Expr BoundColumn) (rest : List (Expr BoundColumn)) (value : Value),
      (call name (first :: rest)).eval row = .ok value ↔
        ∃ bs : List Bool, evalList row (first :: rest) = .ok (bs.map .boolean) ∧
          value = .boolean (outcome bs))
    (hjoined : ∀ (first : Expr BoundColumn) (rest : List (Expr BoundColumn)) (b : Bool)
      (bs : List Bool), first.eval row = .ok (.boolean b) →
        evalList row rest = .ok (bs.map .boolean) →
          (joined op first rest).eval row = .ok (.boolean (outcome (b :: bs)))) :
    StricterForm row name op outcome := by
  have hagrees : ∀ (first : Expr BoundColumn) (rest : List (Expr BoundColumn)) (value : Value),
      (call name (first :: rest)).eval row = .ok value →
        (joined op first rest).eval row = .ok value := by
    intro first rest value hvalue
    obtain ⟨bs, hbs, rfl⟩ := (hcall first rest value).mp hvalue
    obtain ⟨b, others, rfl, hfirst, hrest⟩ := evalList_cons_eq_booleans hbs
    exact hjoined first rest b others hfirst hrest
  refine { value_iff := hcall, agrees := hagrees, fails := ?_ }
  rintro first rest ⟨error, herror⟩
  cases hvalue : (call name (first :: rest)).eval row with
  | error other => exact ⟨other, rfl⟩
  | ok value => cases herror.symm.trans (hagrees first rest value hvalue)

theorem stricterForm_and {name : String} (hname : Builtin.ofName? name = some .and) :
    StricterForm row name .and (·.all id) := by
  refine stricterForm (fun first rest value ↦ ?_) fun first rest b bs hfirst hrest ↦ ?_
  · rw [eval_call_strict hname rfl (Arity.accepts_length_cons first _),
      ← evalList_truths_eq_ok_iff]
    rfl
  · rw [all_cons_eq_foldl]
    exact eval_joined_of_booleans eval_and_of_booleans hfirst hrest

theorem stricterForm_or {name : String} (hname : Builtin.ofName? name = some .or) :
    StricterForm row name .or (·.any id) := by
  refine stricterForm (fun first rest value ↦ ?_) fun first rest b bs hfirst hrest ↦ ?_
  · rw [eval_call_strict hname rfl (Arity.accepts_length_cons first _),
      ← evalList_truths_eq_ok_iff]
    rfl
  · rw [any_cons_eq_foldl]
    exact eval_joined_of_booleans eval_or_of_booleans hfirst hrest

/-! ### Fallbacks -/

theorem eval_call_isNil {name : String} (hname : Builtin.ofName? name = some .isNil)
    (e : Expr BoundColumn) :
    (call name [e]).eval row = (e.eval row).map fun value ↦ .boolean value.isNil := by
  rw [eval_call_strict hname rfl rfl, evalList, evalList]
  cases e.eval row <;> rfl

/-- Taking a fallback for nil is a choice that asks for nil first. -/
theorem eval_call_ifNil_eq_ifThenElse {ifNil isNil ifThenElse : String}
    (hifNil : Builtin.ofName? ifNil = some .ifNil) (hisNil : Builtin.ofName? isNil = some .isNil)
    (hifThenElse : Builtin.ofName? ifThenElse = some .ifThenElse) (e fallback : Expr BoundColumn) :
    (call ifNil [e, fallback]).eval row =
      (call ifThenElse [call isNil [e], fallback, e]).eval row := by
  rw [eval_call_ifNil hifNil, eval_call_ifThenElse hifThenElse, eval_call_isNil hisNil]
  cases e.eval row with
  | error error => rfl
  | ok value => cases value <;> rfl

end Expr

/-- The functions that say the same as an operator or as other functions, whatever letters their
names are written in. -/
structure MirrorsOperators (row : Row) : Prop where
  concat : ∀ name, Builtin.ofName? name = some .concat →
    ∀ (first second : Expr BoundColumn) (rest : List (Expr BoundColumn)),
      (Expr.call name (first :: second :: rest)).eval row =
        (Expr.joined .concat first (second :: rest)).eval row
  conjunction : ∀ name, Builtin.ofName? name = some .and →
    Expr.StricterForm row name .and (·.all id)
  disjunction : ∀ name, Builtin.ofName? name = some .or →
    Expr.StricterForm row name .or (·.any id)
  ifNil : ∀ ifNil isNil ifThenElse, Builtin.ofName? ifNil = some .ifNil →
    Builtin.ofName? isNil = some .isNil → Builtin.ofName? ifThenElse = some .ifThenElse →
      ∀ e fallback : Expr BoundColumn, (Expr.call ifNil [e, fallback]).eval row =
        (Expr.call ifThenElse [.call isNil [e], fallback, e]).eval row

/-- On every row the functions agree with what they mirror; only where a connective fails as a
function, its operator form may still have a value. -/
theorem mirrorsOperators (row : Row) : MirrorsOperators row where
  concat _ hname := Expr.eval_call_concat hname
  conjunction _ hname := Expr.stricterForm_and hname
  disjunction _ hname := Expr.stricterForm_or hname
  ifNil _ _ _ hifNil hisNil hifThenElse :=
    Expr.eval_call_ifNil_eq_ifThenElse hifNil hisNil hifThenElse

/-- `AND(false, 'x')` fails and `false && 'x'` does not: the operator stops in front of the text. -/
example (row : Row) :
    let first : Expr BoundColumn := .boolean false
    let second : Expr BoundColumn := .text "x"
    (Expr.call "and" [first, second]).eval row =
        .error (.notBoolean (.argument .and) (.text "x")) ∧
      (Expr.joined .and first [second]).eval row = .ok (.boolean false) := ⟨rfl, rfl⟩

end ColumnFormula
