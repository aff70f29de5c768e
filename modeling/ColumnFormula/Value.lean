import ColumnFormula.Number.Shortest
import ColumnFormula.Text.Blank

/-!
Cell values. A value has a text form, in which it is joined and compared with other texts, and
possibly a numeric view: numbers have one, and so have texts that read as a numeral.
-/

set_option autoImplicit false
set_option relaxedAutoImplicit false

namespace ColumnFormula

/-- The text of a number: the shortest numeral, and `0` for both zeros. -/
def formatNumber (x : Binary64) : String := if x.isZero then "0" else x.text

/-- The number that a text denotes, blanks around it aside. -/
def numericText? (s : String) : Option Binary64 :=
  (readNumeral? (trim s.toList)).map fun (negative, numeral) ↦ numeral.toBinary64 negative

inductive Value where
  | nil
  | boolean (value : Bool)
  | number (value : Binary64)
  | text (content : String)
  deriving DecidableEq, Inhabited

namespace Value

def isNil : Value → Bool
  | .nil => true
  | _ => false

/-- The numeric view: numbers and texts that read as a numeral. -/
def asNumber? : Value → Option Binary64
  | .number x => some x
  | .text s => numericText? s
  | _ => none

def asBoolean? : Value → Option Bool
  | .boolean b => some b
  | _ => none

/-- The text form. -/
def render : Value → String
  | .nil => "<nil>"
  | .boolean b => toString b
  | .number x => formatNumber x
  | .text s => s

def typeName : Value → String
  | .nil => "nil"
  | .boolean _ => "boolean"
  | .number _ => "number"
  | .text _ => "text"

end Value

/-- The cells of one row by column position; a column that the row does not hold is nil. -/
abbrev Row := Nat → Value

/-- The row with the given cells. -/
def Row.ofList (cells : List Value) : Row := fun index ↦ (cells[index]?).getD .nil

/-- The row with cells at the given positions. -/
def Row.ofEntries (entries : List (Nat × Value)) : Row :=
  fun index ↦ (entries.lookup index).getD .nil

end ColumnFormula
