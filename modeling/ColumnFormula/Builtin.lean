/-!
The built-in functions: their names, how many arguments they take, and which of them choose what to
evaluate.
-/

set_option autoImplicit false
set_option relaxedAutoImplicit false

namespace ColumnFormula

/-- How many arguments a function takes. -/
inductive Arity where
  | exactly (count : Nat)
  | between (least most : Nat)
  | atLeast (count : Nat)
  deriving DecidableEq, Repr

namespace Arity

def accepts : Arity → Nat → Bool
  | .exactly n, count => count == n
  | .between least most, count => least ≤ count && count ≤ most
  | .atLeast n, count => n ≤ count

def describe : Arity → String
  | .exactly n => s!"{n}"
  | .between least most => s!"{least} to {most}"
  | .atLeast n => s!"at least {n}"

end Arity

inductive Builtin where
  | ifThenElse
  | ifNil
  | and
  | or
  | not
  | isNil
  | concat
  | abs
  | round
  | len
  | upper
  | lower
  deriving DecidableEq, Repr

namespace Builtin

/-- All functions, in the order in which the manual lists them. -/
def all : List Builtin :=
  [.ifThenElse, .ifNil, .and, .or, .not, .isNil, .concat, .abs, .round, .len, .upper, .lower]

def name : Builtin → String
  | .ifThenElse => "IF"
  | .ifNil => "IFNIL"
  | .and => "AND"
  | .or => "OR"
  | .not => "NOT"
  | .isNil => "ISNIL"
  | .concat => "CONCAT"
  | .abs => "ABS"
  | .round => "ROUND"
  | .len => "LEN"
  | .upper => "UPPER"
  | .lower => "LOWER"

/-- The function with the given name; the case of ASCII letters does not matter. -/
def ofName? (name : String) : Option Builtin :=
  all.find? fun f ↦ f.name.toList == name.toList.map Char.toUpper

def arity : Builtin → Arity
  | .ifThenElse => .exactly 3
  | .ifNil => .exactly 2
  | .and => .atLeast 1
  | .or => .atLeast 1
  | .concat => .atLeast 1
  | .round => .between 1 2
  | _ => .exactly 1

/-- Whether the function decides which of its arguments are evaluated. -/
def isLazy : Builtin → Bool
  | .ifThenElse => true
  | .ifNil => true
  | _ => false

/-- The parameters as the manual shows them. -/
def parameters : Builtin → String
  | .ifThenElse => "condition, then, else"
  | .ifNil => "value, fallback"
  | .and => "bool, ..."
  | .or => "bool, ..."
  | .not => "bool"
  | .concat => "value, ..."
  | .abs => "number"
  | .round => "number[, digits]"
  | _ => "value"

def signature (f : Builtin) : String := s!"{f.name}({f.parameters})"

end Builtin

end ColumnFormula
