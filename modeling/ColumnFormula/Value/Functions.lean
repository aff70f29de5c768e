import ColumnFormula.Text.LowerCase
import ColumnFormula.Text.UpperCase
import ColumnFormula.Value.Arithmetic

/-!
The built-in functions on evaluated arguments.
-/

set_option autoImplicit false
set_option relaxedAutoImplicit false

namespace ColumnFormula

/-- Rounds half away from zero to `digits` decimal places; a negative count rounds to tens, hundreds
and so on. Places behind the point are counted on the decimal of the number, if it has one; a
number that cannot be scaled stays as it is. -/
def roundTo (x : Binary64) (digits : Int) : Binary64 :=
  let scaled :=
    if digits < 0 then
      let factor := Binary64.powerOfTen digits.natAbs
      (x / factor).roundToWhole * factor
    else
      let factor := Binary64.powerOfTen digits.natAbs
      (x * factor).roundToWhole / factor
  let fallback := if scaled.isFinite then scaled else x
  if digits < 0 then fallback
  else
    match Decimal.ofBinary64? x with
    | some d => (d.round digits.natAbs).toBinary64
    | none => fallback

/-- The digit count that a number stands for: its whole part, kept within 32 bits. -/
def digitCountOf (x : Binary64) : Int := x.truncateClamped (-0x80000000) 0x7FFFFFFF

/-- The truth values of all arguments, or the error of the first one that has none. -/
def truths (use : OperandUse) : List Value → Except EvalError (List Bool)
  | [] => .ok []
  | value :: rest => do
    let b ← value.truth use
    let bs ← truths use rest
    .ok (b :: bs)

/-- The result of a function on evaluated arguments. -/
def Builtin.apply (f : Builtin) (values : List Value) : Except EvalError Value :=
  match f, values with
  | .ifThenElse, [condition, yes, no] => do
    let b ← condition.truth .condition
    .ok (if b then yes else no)
  | .ifNil, [value, fallback] => .ok (if value.isNil then fallback else value)
  | .and, values => do
    let bs ← truths (.argument .and) values
    .ok (.boolean (bs.all id))
  | .or, values => do
    let bs ← truths (.argument .or) values
    .ok (.boolean (bs.any id))
  | .not, [value] => do
    let b ← value.truth (.argument .not)
    .ok (.boolean (!b))
  | .isNil, [value] => .ok (.boolean value.isNil)
  | .concat, values => .ok (.text (String.join (values.map Value.render)))
  | .abs, [value] => do
    let x ← value.operand (.argument .abs)
    .ok (.number x.abs)
  | .round, [value] => do
    let x ← value.operand (.argument .round)
    .ok (.number (roundTo x 0))
  | .round, [value, digits] => do
    let x ← value.operand (.argument .round)
    let d ← digits.operand (.argument .round)
    .ok (.number (roundTo x (digitCountOf d)))
  | .len, [value] => .ok (.number (.ofNat value.render.length))
  | .upper, [value] => .ok (.text (String.ofList (upperText value.render.toList)))
  | .lower, [value] => .ok (.text (String.ofList (lowerText value.render.toList)))
  | f, values => .error (.wrongArity f values.length)

end ColumnFormula
