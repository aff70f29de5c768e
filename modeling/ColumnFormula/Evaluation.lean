import ColumnFormula.Expr
import ColumnFormula.Value.Functions

/-!
Evaluating bound expressions for one row. Connectives, `IF` and `IFNIL` evaluate only the operands
they need, a chain of comparisons stops at the first pair that fails, and every other operand is
evaluated from left to right. The name of a function is looked up and its arguments are counted
before any of them is evaluated.
-/

set_option autoImplicit false
set_option relaxedAutoImplicit false

namespace ColumnFormula.Expr

mutual

/-- The value of an expression for a row. -/
def eval (row : Row) : Expr BoundColumn → Except EvalError Value
  | .number value => .ok (.number value)
  | .text content => .ok (.text content)
  | .boolean value => .ok (.boolean value)
  | .nil => .ok .nil
  | .reference column => .ok (row column.index)
  | .binary op left right =>
    match op with
    | .and => do
      if ← (← left.eval row).truth .conjunction then
        let b ← (← right.eval row).truth .conjunction
        .ok (.boolean b)
      else .ok (.boolean false)
    | .or => do
      if ← (← left.eval row).truth .disjunction then .ok (.boolean true)
      else
        let b ← (← right.eval row).truth .disjunction
        .ok (.boolean b)
    | op => do
      let a ← left.eval row
      let b ← right.eval row
      op.apply a b
  | .chain operands operators =>
    match operands with
    | [] => .ok (.boolean true)
    | first :: rest => do
      let left ← first.eval row
      let holds ← evalLinks row left operators rest
      .ok (.boolean holds)
  | .call name args =>
    match Builtin.ofName? name with
    | none => .error (.unknownFunction name)
    | some f =>
      if f.arity.accepts args.length then
        match f, args with
        | .ifThenElse, [condition, yes, no] => do
          if ← (← condition.eval row).truth .condition then yes.eval row else no.eval row
        | .ifNil, [e, fallback] => do
          let value ← e.eval row
          if value.isNil then fallback.eval row else .ok value
        | f, args => do
          let values ← evalList row args
          f.apply values
      else .error (.wrongArity f args.length)

/-- Whether each operand stands in the given relation to the one before it; `left` is the value of
the operand before the first one. -/
def evalLinks (row : Row) (left : Value) :
    List Comparison → List (Expr BoundColumn) → Except EvalError Bool
  | op :: operators, e :: rest => do
    let right ← e.eval row
    if op.holds left right then evalLinks row right operators rest else .ok false
  | _, _ => .ok true

/-- The values of several expressions from left to right. -/
def evalList (row : Row) : List (Expr BoundColumn) → Except EvalError (List Value)
  | [] => .ok []
  | e :: rest => do
    let value ← e.eval row
    let values ← evalList row rest
    .ok (value :: values)

end

end ColumnFormula.Expr
