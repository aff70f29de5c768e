import ColumnFormula.Operator
import ColumnFormula.Value

/-!
Comparing values. Two values with a numeric view compare as numbers, all others by their text
forms, code point by code point. Nil equals only itself and is never less or greater.
-/

set_option autoImplicit false
set_option relaxedAutoImplicit false

namespace ColumnFormula

/-- The order of two texts by code points. -/
def compareTexts (a b : String) : Ordering :=
  if a < b then .lt else if a = b then .eq else .gt

namespace Value

/-- Equality of values in formulas. -/
def equal (left right : Value) : Bool :=
  match left, right with
  | .nil, .nil => true
  | .nil, _ => false
  | _, .nil => false
  | left, right =>
    match left.asNumber?, right.asNumber? with
    | some a, some b => a.numEq b
    | _, _ => left.render == right.render

/-- The order of two values; none if one is nil or a number that is not a number. -/
def compare? (left right : Value) : Option Ordering :=
  if left.isNil || right.isNil then none
  else
    match left.asNumber?, right.asNumber? with
    | some a, some b => a.compare? b
    | _, _ => some (compareTexts left.render right.render)

end Value

/-- Whether a comparison holds between two values; values without an order fail every ordering. -/
def Comparison.holds (op : Comparison) (left right : Value) : Bool :=
  match op with
  | .equal => left.equal right
  | .notEqual => !left.equal right
  | .less => left.compare? right == some .lt
  | .greater => left.compare? right == some .gt
  | .lessEqual =>
    match left.compare? right with
    | none => false
    | some order => order != .gt
  | .greaterEqual =>
    match left.compare? right with
    | none => false
    | some order => order != .lt

end ColumnFormula
