import ColumnFormula.Number.Shortest
import ColumnFormula.Operator

/-!
The tokens of a formula. A text is cut into located tokens and the offset of its end; there is no
token for the end itself, so a list of tokens can hold nothing behind it.
-/

set_option autoImplicit false
set_option relaxedAutoImplicit false

namespace ColumnFormula

inductive Token where
  /-- A number literal such as `42`, `3.5` or `.5`. -/
  | number (value : Binary64)
  /-- A text in single or double quotes. -/
  | text (content : String)
  | boolean (value : Bool)
  | nil
  /-- A bare word: column letters, a column name or the name of a function. -/
  | identifier (name : String)
  /-- A column name in brackets. -/
  | columnName (name : String)
  /-- A column position behind `#`. -/
  | columnIndex (index : Nat)
  /-- The word `NEW` before an opening parenthesis. -/
  | new
  | operator (op : BinaryOp)
  | assign
  | openParen
  | closeParen
  | comma
  deriving DecidableEq

namespace Token

/-- The signs of the language with their tokens, a longer sign before every shorter beginning of
it. -/
def signs : List (List Char × Token) := [
  ("&&".toList, .operator .and),
  ("||".toList, .operator .or),
  ("==".toList, .operator (.comparison .equal)),
  ("!=".toList, .operator (.comparison .notEqual)),
  ("<=".toList, .operator (.comparison .lessEqual)),
  (">=".toList, .operator (.comparison .greaterEqual)),
  ("<".toList, .operator (.comparison .less)),
  (">".toList, .operator (.comparison .greater)),
  ("+".toList, .operator (.arithmetic .add)),
  ("-".toList, .operator (.arithmetic .subtract)),
  ("*".toList, .operator (.arithmetic .multiply)),
  ("/".toList, .operator (.arithmetic .divide)),
  ("&".toList, .operator .concat),
  ("=".toList, .assign),
  ("(".toList, .openParen),
  (")".toList, .closeParen),
  (",".toList, .comma)]

/-- How error messages speak of a token. -/
def describe : Token → String
  | .number value => s!"number {value.text}"
  | .text content => s!"string '{content}'"
  | .boolean value => toString value
  | .nil => "nil"
  | .identifier name => s!"identifier '{name}'"
  | .columnName name => s!"column [{name}]"
  | .columnIndex index => s!"column #{index}"
  | .new => "NEW"
  | .operator op => s!"'{op.symbol}'"
  | .assign => "'='"
  | .openParen => "'('"
  | .closeParen => "')'"
  | .comma => "','"

end Token

/-- How error messages speak of a token, or of the end of the text. -/
def describeToken? : Option Token → String
  | some token => token.describe
  | none => "end of input"

/-- A token with the offset of its first character. -/
structure LocatedToken where
  token : Token
  offset : Nat
  deriving DecidableEq

/-- The tokens of a whole text and the offset where it ends. -/
structure TokenList where
  tokens : List LocatedToken
  finish : Nat
  deriving DecidableEq

end ColumnFormula
