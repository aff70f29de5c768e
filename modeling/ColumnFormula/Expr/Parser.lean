import ColumnFormula.Expr
import ColumnFormula.Token

/-!
Reading expressions and statements from tokens. A `ParserState` holds the tokens not yet read, and
an error leaves it where reading stopped, so one state serves several calls in a row. Operators bind
in six levels over `operand`, each a combinator of its own; parentheses, calls and unary minus start
again at the loosest level. How deep they may still be nested is the argument that `unary` recurses
on, and the same bound holds for the height of the tree.
-/

set_option autoImplicit false
set_option relaxedAutoImplicit false

namespace ColumnFormula

/-! ### Errors -/

/-- What the parser would have accepted. -/
inductive Expected where
  | token (sign : Token)
  | quotedName
  | argumentEnd
  deriving DecidableEq

def Expected.describe : Expected → String
  | .token sign => sign.describe
  | .quotedName => "quoted column name"
  | .argumentEnd => "',' or ')'"

/-- Why the tokens are not in the language. A token that was found is none at the end of the
text. -/
inductive ParseFault where
  | unexpectedToken (expected : Expected) (found : Option Token)
  | missingOperand (found : Option Token)
  | unmatchedParen
  | trailingTokens (found : Token)
  | emptyArgument
  | emptyStatement
  | assignmentNotAllowed
  | invalidAssignmentTarget
  | tooDeep
  deriving DecidableEq

/-- A fault with the offset of the token it points at. -/
structure ParseError where
  fault : ParseFault
  position : Nat
  deriving DecidableEq

/-- The greatest height of an expression, and the deepest nesting of parentheses, calls and unary
minus signs. -/
def maxDepth : Nat := 200

def ParseError.message (e : ParseError) : String :=
  match e.fault with
  | .unexpectedToken expected found =>
    s!"Expected {expected.describe}, got {describeToken? found} at position {e.position}"
  | .missingOperand found =>
    s!"Missing operand: expected an expression, got {describeToken? found} at position {e.position}"
  | .unmatchedParen => s!"Unmatched parenthesis at position {e.position}"
  | .trailingTokens found =>
    s!"Unexpected {found.describe} after end of expression at position {e.position}"
  | .emptyArgument => s!"Empty argument in function call at position {e.position}"
  | .emptyStatement => s!"Empty statement at position {e.position}"
  | .assignmentNotAllowed =>
    s!"Assignment and NEW(...) are not allowed in an expression (at position {e.position})"
  | .invalidAssignmentTarget =>
    s!"Cannot assign to an expression at position {e.position}: target must be a column reference"
  | .tooDeep => s!"Expression nested deeper than {maxDepth} levels at position {e.position}"

/-! ### State -/

/-- The tokens not yet read, the offset of the end of the text, and the number of parentheses,
calls and unary minus signs that are open. -/
structure ParserState where
  rest : List LocatedToken
  finish : Nat
  nesting : Nat
  deriving DecidableEq

namespace ParserState

def start (list : TokenList) : ParserState := ⟨list.tokens, list.finish, 0⟩

/-- The next token, none at the end. -/
def current? (s : ParserState) : Option Token := s.rest.head?.map LocatedToken.token

/-- The token after the next one. -/
def following? (s : ParserState) : Option Token := s.rest.tail.head?.map LocatedToken.token

/-- The offset of the next token, or of the end. -/
def position (s : ParserState) : Nat :=
  match s.rest with
  | [] => s.finish
  | next :: _ => next.offset

def advance (s : ParserState) : ParserState := { s with rest := s.rest.tail }

end ParserState

/-- A reader of tokens; a failure keeps the state that was reached. -/
abbrev Parse (α : Type) := EStateM ParseError ParserState α

namespace Parse

variable {α : Type}

def current? : Parse (Option Token) := fun s ↦ .ok s.current? s

def following? : Parse (Option Token) := fun s ↦ .ok s.following? s

def position : Parse Nat := fun s ↦ .ok s.position s

/-- The number of tokens left; it bounds every loop over them. -/
def remaining : Parse Nat := fun s ↦ .ok s.rest.length s

/-- Steps over one token; at the end there is nothing to step over. -/
def advance : Parse Unit := fun s ↦ .ok () s.advance

def failAt (position : Nat) (fault : ParseFault) : Parse α := fun s ↦ .error ⟨fault, position⟩ s

/-- Fails at the next token. -/
def fail (fault : ParseFault) : Parse α := fun s ↦ .error ⟨fault, s.position⟩ s

/-- Steps over the given token. -/
def expect (token : Token) : Parse Unit := do
  let found ← current?
  if found = some token then advance
  else fail (.unexpectedToken (.token token) found)

/-- Reads with one more level open and closes it on success and on failure. -/
def nested (body : Parse α) : Parse α := fun s ↦
  match body { s with nesting := s.nesting + 1 } with
  | .ok a s => .ok a { s with nesting := s.nesting - 1 }
  | .error e s => .error e { s with nesting := s.nesting - 1 }

/-- Passes an expression on unless it is too high. -/
def bounded (e : Expr Reference) : Parse (Expr Reference) :=
  if maxDepth < e.depth then fail .tooDeep else pure e

/-! ### Levels of operators -/

/-- Goes on from `left` with pairs of an operator and an operand, grouping to the left. -/
def leftAssociativeLoop (operator? : Token → Option BinaryOp) (operand : Parse (Expr Reference)) :
    Nat → Expr Reference → Parse (Expr Reference)
  | 0, left => pure left
  | count + 1, left => do
    match (← current?).bind operator? with
    | none => pure left
    | some op =>
      advance
      let right ← operand
      let node ← bounded (.binary op left right)
      leftAssociativeLoop operator? operand count node

/-- Operands joined by the operators of one level. -/
def leftAssociative (operator? : Token → Option BinaryOp) (operand : Parse (Expr Reference)) :
    Parse (Expr Reference) := do
  let first ← operand
  leftAssociativeLoop operator? operand (← remaining) first

def multiplicative? : Token → Option BinaryOp
  | .operator (.arithmetic .multiply) => some (.arithmetic .multiply)
  | .operator (.arithmetic .divide) => some (.arithmetic .divide)
  | _ => none

def additive? : Token → Option BinaryOp
  | .operator (.arithmetic .add) => some (.arithmetic .add)
  | .operator (.arithmetic .subtract) => some (.arithmetic .subtract)
  | _ => none

def concat? : Token → Option BinaryOp
  | .operator .concat => some .concat
  | _ => none

def comparison? : Token → Option Comparison
  | .operator (.comparison op) => some op
  | _ => none

def and? : Token → Option BinaryOp
  | .operator .and => some .and
  | _ => none

def or? : Token → Option BinaryOp
  | .operator .or => some .or
  | _ => none

/-- Pairs of a comparison and an operand, as long as they last. -/
def comparisonLinks (operand : Parse (Expr Reference)) :
    Nat → Parse (List (Comparison × Expr Reference))
  | 0 => pure []
  | count + 1 => do
    match (← current?).bind comparison? with
    | none => pure []
    | some op =>
      advance
      let right ← operand
      let links ← comparisonLinks operand count
      pure ((op, right) :: links)

/-- Operands joined by comparisons: one comparison is a binary node, more of them are a chain. -/
def comparisons (operand : Parse (Expr Reference)) : Parse (Expr Reference) := do
  let first ← operand
  match ← comparisonLinks operand (← remaining) with
  | [] => pure first
  | [(op, right)] => bounded (.binary (.comparison op) first right)
  | links => bounded (.chain (first :: links.map Prod.snd) (links.map Prod.fst))

/-- A whole expression over the given operands: the six levels of operators, tightest first. -/
def expressionOver (operand : Parse (Expr Reference)) : Parse (Expr Reference) :=
  leftAssociative or? <| leftAssociative and? <| comparisons <| leftAssociative concat? <|
    leftAssociative additive? <| leftAssociative multiplicative? operand

/-! ### Operands -/

/-- The arguments of a call up to and with the closing parenthesis, at least one of them. -/
def arguments (expression : Parse (Expr Reference)) (openPosition : Nat) :
    Nat → Parse (List (Expr Reference))
  | 0 => do
    let last ← expression
    pure [last]
  | count + 1 => do
    let next ← current?
    if next = some .comma ∨ next = some .closeParen then fail .emptyArgument
    else
      let arg ← expression
      match ← current? with
      | some .comma =>
        advance
        let args ← arguments expression openPosition count
        pure (arg :: args)
      | some .closeParen =>
        advance
        pure [arg]
      | none => failAt openPosition .unmatchedParen
      | some token => fail (.unexpectedToken .argumentEnd (some token))

/-- The argument list of a call; the next token is its opening parenthesis. -/
def call (expression : Parse (Expr Reference)) (name : String) : Parse (Expr Reference) := do
  let openPosition ← position
  advance
  if (← current?) = some .closeParen then
    advance
    bounded (.call name [])
  else
    let args ← arguments expression openPosition (← remaining)
    bounded (.call name args)

/-- A literal, a reference, a call or an expression in parentheses. -/
def primary (expression : Parse (Expr Reference)) : Parse (Expr Reference) := do
  let start ← position
  match ← current? with
  | some (.number value) => do
    advance
    pure (.number value)
  | some (.text content) => do
    advance
    pure (.text content)
  | some (.boolean value) => do
    advance
    pure (.boolean value)
  | some .nil => do
    advance
    pure .nil
  | some (.identifier name) => do
    let next ← following?
    advance
    if next = some .openParen then call expression name
    else pure (.reference (.identifier name))
  | some (.columnName name) => do
    advance
    pure (.reference (.columnName name))
  | some (.columnIndex index) => do
    advance
    pure (.reference (.columnIndex index))
  | some .openParen => do
    advance
    let e ← expression
    if (← current?) = some .closeParen then
      advance
      pure e
    else failAt start .unmatchedParen
  | found => failAt start (.missingOperand found)

/-- An operand with its minus signs, `levels` more levels of nesting being allowed. A negated
operand is subtracted from zero. -/
def unary : Nat → Parse (Expr Reference)
  | 0 => fail .tooDeep
  | levels + 1 => nested do
    if (← current?) = some (.operator (.arithmetic .subtract)) then
      advance
      let operand ← unary levels
      bounded (.binary (.arithmetic .subtract) (.number (.zero false)) operand)
    else primary (expressionOver (unary levels))

/-! ### Expressions and statements -/

/-- An expression, with as many levels of nesting as the open ones leave. -/
def expression : Parse (Expr Reference) := fun s ↦
  expressionOver (unary (maxDepth - s.nesting)) s

/-- Requires that all tokens have been read. -/
def atEnd : Parse Unit := do
  match ← current? with
  | none => pure ()
  | some .closeParen => fail .unmatchedParen
  | some token => fail (.trailingTokens token)

/-- A bare expression that spans all tokens. -/
def wholeExpression : Parse (Expr Reference) := do
  match ← current? with
  | none => fail .emptyStatement
  | some .new => fail .assignmentNotAllowed
  | some _ =>
    let e ← expression
    if (← current?) = some .assign then fail .assignmentNotAllowed
    else
      atEnd
      pure e

/-- The statement behind the word `NEW`. -/
def newColumn : Parse (Statement Reference) := do
  advance
  expect .openParen
  match ← current? with
  | some (.text name) =>
    advance
    expect .closeParen
    expect .assign
    let value ← expression
    pure (.newColumn name value)
  | found => fail (.unexpectedToken .quotedName found)

/-- The reference that a token is by itself. -/
def reference? : Token → Option Reference
  | .identifier name => some (.identifier name)
  | .columnName name => some (.columnName name)
  | .columnIndex index => some (.columnIndex index)
  | _ => none

/-- The target of an assignment: a reference directly before the sign. -/
def assignmentTarget? (s : ParserState) : Option Reference :=
  if s.following? = some .assign then s.current?.bind reference? else none

/-- A statement that need not span all tokens. -/
def statement : Parse (Statement Reference) := do
  let s ← get
  match assignmentTarget? s with
  | some target =>
    advance
    advance
    let value ← expression
    pure (.assign target value)
  | none =>
    match s.current? with
    | none => fail .emptyStatement
    | some .new => newColumn
    | some _ =>
      let e ← expression
      if (← current?) = some .assign then fail .invalidAssignmentTarget
      else pure (.expression e)

/-- A statement that spans all tokens. -/
def wholeStatement : Parse (Statement Reference) := do
  let result ← statement
  atEnd
  pure result

end Parse

end ColumnFormula
