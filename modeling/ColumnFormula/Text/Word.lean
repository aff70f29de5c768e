import ColumnFormula.Text.Alphabetic
import ColumnFormula.Text.Numeric

/-!
The characters of names and literals. A name starts with a letter or an underscore and goes on with
letters, numeric characters and underscores; a literal also has points.
-/

set_option autoImplicit false
set_option relaxedAutoImplicit false

namespace ColumnFormula

/-- Letters and numeric characters. -/
def isAlphanumeric (c : Char) : Bool := isAlphabetic c || isNumeric c

/-- The first character of a name. -/
def isNameStart (c : Char) : Bool := isAlphabetic c || c == '_'

/-- The further characters of a name. -/
def isNameChar (c : Char) : Bool := isAlphanumeric c || c == '_'

/-- The characters of a literal: those of a name and the point. -/
def isLiteralChar (c : Char) : Bool := isNameChar c || c == '.'

end ColumnFormula
