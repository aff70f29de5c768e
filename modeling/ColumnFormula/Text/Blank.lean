import ColumnFormula.Text.CharRanges

/-!
Blank characters: the Unicode property `White_Space`. Formulas may hold blanks between tokens, and
`trim` takes them off both ends of a text.
-/

set_option autoImplicit false
set_option relaxedAutoImplicit false

namespace ColumnFormula

/-- The characters with the property `White_Space`. -/
def whiteSpaceRanges : CharRanges := [
  (9, 13), (32, 32), (133, 133), (160, 160), (5760, 5760), (8192, 8202), (8232, 8233),
  (8239, 8239), (8287, 8287), (12288, 12288)]

def isBlank (c : Char) : Bool := whiteSpaceRanges.contains c.toNat

/-- The text without the blanks at either end. -/
def trim (cs : List Char) : List Char :=
  ((cs.dropWhile isBlank).reverse.dropWhile isBlank).reverse

end ColumnFormula
