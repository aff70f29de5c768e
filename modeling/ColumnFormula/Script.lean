import ColumnFormula.Formula
import ColumnFormula.Text.Blank

/-!
Scripts of several statements. A script is cut at semicolons and newlines that are neither in
quotes nor in brackets; the pieces are trimmed and empty ones dropped. Each piece is compiled as a
statement, and the first failing one is reported with its number.
-/

set_option autoImplicit false
set_option relaxedAutoImplicit false

namespace ColumnFormula

/-- What a place in a script is inside of. -/
inductive Zone where
  | plain
  | quoted (quote : Char)
  | bracketed
  deriving DecidableEq, Repr

/-- The zone behind a character. -/
def Zone.step : Zone → Char → Zone
  | .quoted quote, c => if c = quote then .plain else .quoted quote
  | .bracketed, c => if c = ']' then .plain else .bracketed
  | .plain, c =>
    if c = '\'' ∨ c = '"' then .quoted c
    else if c = '[' then .bracketed
    else .plain

/-- Whether a character ends a statement. -/
def Zone.separates (zone : Zone) (c : Char) : Bool :=
  zone == .plain && (c == ';' || c == '\n')

/-- The pieces between separators, from a place in the given zone on; there is always one. -/
def cutPieces (zone : Zone) : List Char → List (List Char)
  | [] => [[]]
  | c :: rest =>
    if zone.separates c then [] :: cutPieces .plain rest
    else
      match cutPieces (zone.step c) rest with
      | piece :: pieces => (c :: piece) :: pieces
      | [] => [[c]]

/-- The statements of a script as texts: trimmed pieces that are not empty. -/
def splitStatements (script : String) : List String :=
  (((cutPieces .plain script.toList).map trim).filter (!·.isEmpty)).map String.ofList

/-- Why a text is neither a formula nor a script. -/
inductive CompileError where
  | formula (error : FormulaError)
  /-- A statement of a script failed; statements are counted from one. -/
  | statement (line : Nat) (text : String) (error : FormulaError)
  deriving DecidableEq

namespace CompileError

def message : CompileError → String
  | .formula error => error.message
  | .statement line text error => s!"Statement {line} ('{text}'): {error.message}"

/-- The offset in the formula, or in the failing statement, that the error points at. -/
def position : CompileError → Nat
  | .formula error => error.position
  | .statement _ _ error => error.position

end CompileError

/-- Compiles statements in order, the first one having the given number. -/
def compileStatements (line : Nat) : List String → Except CompileError (List (Statement Reference))
  | [] => .ok []
  | text :: rest =>
    match compileStatement text with
    | .error e => .error (.statement line text e)
    | .ok statement => (compileStatements (line + 1) rest).map (statement :: ·)

/-- The statements of a script, or the error of the first one that fails. -/
def compileScript (script : String) : Except CompileError (List (Statement Reference)) :=
  compileStatements 1 (splitStatements script)

end ColumnFormula
