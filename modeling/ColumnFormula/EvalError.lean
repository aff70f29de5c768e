import ColumnFormula.Builtin
import ColumnFormula.Operator
import ColumnFormula.Value

/-!
What can go wrong when a formula is evaluated for a row.
-/

set_option autoImplicit false
set_option relaxedAutoImplicit false

namespace ColumnFormula

/-- What an operand was to be used for. -/
inductive OperandUse where
  | conjunction
  | disjunction
  | condition
  | arithmetic (op : Arithmetic)
  | argument (f : Builtin)
  deriving DecidableEq

def OperandUse.describe : OperandUse → String
  | .conjunction => BinaryOp.and.symbol
  | .disjunction => BinaryOp.or.symbol
  | .condition => "IF condition"
  | .arithmetic op => s!"'{op.symbol}'"
  | .argument f => f.name

inductive EvalError where
  | notBoolean (use : OperandUse) (value : Value)
  | notNumericText (use : OperandUse) (content : String)
  | notNumericBoolean (use : OperandUse) (value : Bool)
  | unknownFunction (name : String)
  | wrongArity (f : Builtin) (count : Nat)
  deriving DecidableEq

def EvalError.message : EvalError → String
  | .notBoolean use value =>
    s!"Type error: {use.describe} requires a boolean operand, got {value.typeName} '{value.render}'"
  | .notNumericText use content =>
    s!"Type error: Cannot use non-numeric text '{content}' in {use.describe}"
  | .notNumericBoolean use value => s!"Type error: Cannot use boolean {value} in {use.describe}"
  | .unknownFunction name => s!"Unknown function: {name}()"
  | .wrongArity f count =>
    s!"{f.name}() takes {f.arity.describe} argument(s), got {count}"

end ColumnFormula
