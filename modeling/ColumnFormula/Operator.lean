/-!
The binary operators of formulas: six comparisons, four arithmetic operators, the joining of texts
and the two logical connectives.
-/

set_option autoImplicit false
set_option relaxedAutoImplicit false

namespace ColumnFormula

inductive Comparison where
  | equal
  | notEqual
  | less
  | greater
  | lessEqual
  | greaterEqual
  deriving DecidableEq, Repr

inductive Arithmetic where
  | add
  | subtract
  | multiply
  | divide
  deriving DecidableEq, Repr

inductive BinaryOp where
  | comparison (op : Comparison)
  | arithmetic (op : Arithmetic)
  | concat
  | and
  | or
  deriving DecidableEq, Repr

def Comparison.symbol : Comparison → String
  | .equal => "=="
  | .notEqual => "!="
  | .less => "<"
  | .greater => ">"
  | .lessEqual => "<="
  | .greaterEqual => ">="

def Arithmetic.symbol : Arithmetic → String
  | .add => "+"
  | .subtract => "-"
  | .multiply => "*"
  | .divide => "/"

def BinaryOp.symbol : BinaryOp → String
  | .comparison op => op.symbol
  | .arithmetic op => op.symbol
  | .concat => "&"
  | .and => "&&"
  | .or => "||"

end ColumnFormula
