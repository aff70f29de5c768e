import ColumnFormula.Token.Lexer
import ColumnFormula.Expr.Parser

/-!
From the text of one formula to its tree. `compileExpression` takes a bare expression,
`compileStatement` any statement; both read the whole text.
-/

set_option autoImplicit false
set_option relaxedAutoImplicit false

namespace ColumnFormula

/-- Why a text is no formula. -/
inductive FormulaError where
  | lex (error : LexError)
  | parse (error : ParseError)
  deriving DecidableEq

namespace FormulaError

def message : FormulaError → String
  | .lex error => s!"Lex error: {error.message}"
  | .parse error => s!"Parse error: {error.message}"

/-- The offset in the text that the error points at. -/
def position : FormulaError → Nat
  | .lex error => error.position
  | .parse error => error.position

end FormulaError

/-- The result of a reader without the state it ends in. -/
def Parse.result {α : Type} (reader : Parse α) (s : ParserState) : Except ParseError α :=
  match reader s with
  | .ok a _ => .ok a
  | .error e _ => .error e

/-- Cuts a text into tokens and applies a reader to them. -/
def compileWith {α : Type} (reader : Parse α) (text : String) : Except FormulaError α :=
  match tokenize text with
  | .error e => .error (.lex e)
  | .ok list => (reader.result (.start list)).mapError .parse

/-- The tree of a text that is one expression. -/
def compileExpression (text : String) : Except FormulaError (Expr Reference) :=
  compileWith .wholeExpression text

/-- The tree of a text that is one statement. -/
def compileStatement (text : String) : Except FormulaError (Statement Reference) :=
  compileWith .wholeStatement text

end ColumnFormula
