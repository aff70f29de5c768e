import ColumnFormula.ColumnLetters
import ColumnFormula.Expr
import ColumnFormula.Schema

/-!
Binding: every reference of an expression is replaced by a column of a schema. A run of capital
letters is a position; any other word, and a run of letters past 64 bits, is looked up among the
names; a position must lie inside the width. The first reference that does not resolve, from left
to right, is reported.
-/

set_option autoImplicit false
set_option relaxedAutoImplicit false

namespace ColumnFormula

/-- Why a formula does not fit a schema. -/
inductive BindError where
  | nameResolution (name : String)
  | indexOutOfRange (index width : Nat)
  | duplicateColumn (name : String)
  deriving DecidableEq

def BindError.message : BindError → String
  | .nameResolution name => s!"Unknown column '{name}'"
  | .indexOutOfRange index width =>
    s!"Column index #{index} out of range: dataset has {width} columns"
  | .duplicateColumn name => s!"Column '{name}' already exists"

namespace Schema

/-- The column at a position; without a name of its own it is called as it was written. -/
def columnAt (schema : Schema) (index : Nat) (written : String) : BoundColumn :=
  match schema.nameOf index with
  | some name => ⟨index, if name.isEmpty then written else name⟩
  | none => ⟨index, written⟩

/-- The column that a word or a bracketed name denotes. -/
def resolveName (schema : Schema) (name : String) : Except BindError BoundColumn :=
  match (columnLetterIndex? name).or (schema.lookup name) with
  | some index =>
    if index < schema.width then .ok (schema.columnAt index name)
    else .error (.nameResolution name)
  | none => .error (.nameResolution name)

/-- The column at a position that must lie inside the width. -/
def resolveIndex (schema : Schema) (index : Nat) : Except BindError BoundColumn :=
  if index < schema.width then .ok (schema.columnAt index s!"#{index}")
  else .error (.indexOutOfRange index schema.width)

/-- The column that a reference denotes; a column bound to another schema counts by its
position. -/
def resolve (schema : Schema) : Reference → Except BindError BoundColumn
  | .identifier name => schema.resolveName name
  | .columnName name => schema.resolveName name
  | .columnIndex index => schema.resolveIndex index
  | .bound column => schema.resolveIndex column.index

end Schema

namespace Expr

variable {ρ σ ε : Type}

mutual

/-- Replaces every column of the tree, from left to right, until one fails. -/
def resolve (f : ρ → Except ε σ) : Expr ρ → Except ε (Expr σ)
  | .number value => .ok (.number value)
  | .text content => .ok (.text content)
  | .boolean value => .ok (.boolean value)
  | .nil => .ok .nil
  | .reference column => (f column).map .reference
  | .binary op left right => do
    let left ← left.resolve f
    let right ← right.resolve f
    .ok (.binary op left right)
  | .chain operands operators => do
    let operands ← resolveList f operands
    .ok (.chain operands operators)
  | .call name args => do
    let args ← resolveList f args
    .ok (.call name args)

def resolveList (f : ρ → Except ε σ) : List (Expr ρ) → Except ε (List (Expr σ))
  | [] => .ok []
  | e :: rest => do
    let e ← e.resolve f
    let rest ← resolveList f rest
    .ok (e :: rest)

end

mutual

/-- The columns of the tree from left to right. -/
def references : Expr ρ → List ρ
  | .reference column => [column]
  | .binary _ left right => left.references ++ right.references
  | .chain operands _ => referencesList operands
  | .call _ args => referencesList args
  | _ => []

def referencesList : List (Expr ρ) → List ρ
  | [] => []
  | e :: rest => e.references ++ referencesList rest

end

/-- Binds an expression to a schema. -/
def bind (schema : Schema) (e : Expr Reference) : Except BindError (Expr BoundColumn) :=
  e.resolve schema.resolve

/-- Binds an expression again, to another schema: each column keeps its position. -/
def rebind (schema : Schema) (e : Expr BoundColumn) : Except BindError (Expr BoundColumn) :=
  e.resolve fun column ↦ schema.resolve (.bound column)

/-- The positions of the columns that a bound expression reads, each once, in the order of their
first occurrences. -/
def columns (e : Expr BoundColumn) : List Nat :=
  (e.references.map BoundColumn.index).eraseDups

end Expr

namespace Statement

/-- Binds a statement to a schema. The target of an assignment is resolved before its value, and
the name of a new column is checked before its value. -/
def bind (schema : Schema) :
    Statement Reference → Except BindError (Statement BoundColumn)
  | .expression value => (value.bind schema).map .expression
  | .assign target value => do
    let target ← schema.resolve target
    let value ← value.bind schema
    .ok (.assign target value)
  | .newColumn name value =>
    if (schema.lookup name).isSome then .error (.duplicateColumn name)
    else (value.bind schema).map (.newColumn name)

end Statement

end ColumnFormula
