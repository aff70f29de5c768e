import ColumnFormula.EvalError
import ColumnFormula.Number.Decimal
import ColumnFormula.Value.Comparison

/-!
Arithmetic on values. Nil counts as zero and a numeric text as its number. A result is computed in
binary and, if both operands are short decimals, in decimal as well; the decimal result is taken
when it agrees with the binary one and has fewer digits, so `0.1 + 0.2` is `0.3`.
-/

set_option autoImplicit false
set_option relaxedAutoImplicit false

namespace ColumnFormula

/-- The numeric operand that a value stands for. -/
def Value.operand (use : OperandUse) : Value → Except EvalError Binary64
  | .nil => .ok (.zero false)
  | .number x => .ok x
  | .text s =>
    match numericText? s with
    | some x => .ok x
    | none => .error (.notNumericText use s)
  | .boolean b => .error (.notNumericBoolean use b)

/-- The truth value that a value must be. -/
def Value.truth (use : OperandUse) (value : Value) : Except EvalError Bool :=
  match value.asBoolean? with
  | some b => .ok b
  | none => .error (.notBoolean use value)

/-- The decimal of a number, provided it converts back to the same number. -/
def exactDecimal? (x : Binary64) : Option Decimal := do
  let d ← Decimal.ofBinary64? x
  if d.toBinary64.numEq x then some d else none

namespace Arithmetic

def binary (op : Arithmetic) (a b : Binary64) : Binary64 :=
  match op with
  | .add => a + b
  | .subtract => a - b
  | .multiply => a * b
  | .divide => a / b

def decimal? (op : Arithmetic) (a b : Decimal) : Option Decimal :=
  match op with
  | .add => a.add? b
  | .subtract => a.sub? b
  | .multiply => a.mul? b
  | .divide => a.div? b

/-- The result in decimal arithmetic, if both operands are exact decimals and it is in range. -/
def inDecimal? (op : Arithmetic) (a b : Binary64) : Option Binary64 := do
  let a ← exactDecimal? a
  let b ← exactDecimal? b
  let result ← op.decimal? a b
  some result.toBinary64

end Arithmetic

/-- The relative distance up to which a decimal result counts as the same as the binary one:
`1e-12`. -/
def agreementTolerance : Binary64 := .ofDecimal false 1 (-12)

/-- Whether a decimal result is within the tolerance of a finite binary one. -/
def agrees (decimal binary : Binary64) : Bool :=
  binary.isFinite && ((decimal - binary).abs).numLe (binary.abs * agreementTolerance)

/-- The result of an arithmetic operator on numbers. -/
def Arithmetic.compute (op : Arithmetic) (a b : Binary64) : Binary64 :=
  let binary := op.binary a b
  match op.inDecimal? a b with
  | some decimal =>
    if agrees decimal binary && decimal.digitCount < binary.digitCount then decimal else binary
  | none => binary

/-- The result of a binary operator on evaluated operands. The second operand of a connective is
not looked at when the first one decides. -/
def BinaryOp.apply (op : BinaryOp) (left right : Value) : Except EvalError Value :=
  match op with
  | .arithmetic op => do
    let a ← left.operand (.arithmetic op)
    let b ← right.operand (.arithmetic op)
    .ok (.number (op.compute a b))
  | .concat => .ok (.text (left.render ++ right.render))
  | .comparison op => .ok (.boolean (op.holds left right))
  | .and => do
    if ← left.truth .conjunction then
      let b ← right.truth .conjunction
      .ok (.boolean b)
    else .ok (.boolean false)
  | .or => do
    if ← left.truth .disjunction then .ok (.boolean true)
    else
      let b ← right.truth .disjunction
      .ok (.boolean b)

end ColumnFormula
