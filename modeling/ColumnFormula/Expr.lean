import ColumnFormula.Number.Binary64
import ColumnFormula.Operator

/-!
Expression trees and statements. A tree is parametrised by what stands for a column in it: a
reference as it was written, or a column of a schema once the tree is bound. The height of a tree
is found by a walk with an explicit list of pending nodes (`Expr.depth`).
-/

set_option autoImplicit false
set_option relaxedAutoImplicit false

namespace ColumnFormula

/-- A column of a schema, with the name that stands for it in answers. -/
structure BoundColumn where
  index : Nat
  name : String
  deriving DecidableEq

/-- A reference to a column: as written in a formula, or bound earlier to some schema. -/
inductive Reference where
  /-- A bare word: column letters or a column name. -/
  | identifier (name : String)
  /-- A column name in brackets. -/
  | columnName (name : String)
  /-- A column position behind `#`. -/
  | columnIndex (index : Nat)
  | bound (column : BoundColumn)
  deriving DecidableEq

/-- An expression whose columns are of type `ρ`. -/
inductive Expr (ρ : Type) where
  | number (value : Binary64)
  | text (content : String)
  | boolean (value : Bool)
  | nil
  | reference (column : ρ)
  | binary (op : BinaryOp) (left right : Expr ρ)
  /-- Two or more comparisons in a row; one operand more than operators. -/
  | chain (operands : List (Expr ρ)) (operators : List Comparison)
  | call (name : String) (args : List (Expr ρ))

namespace Expr

variable {ρ : Type}

/-- The direct subexpressions from left to right. -/
def children : Expr ρ → List (Expr ρ)
  | .binary _ left right => [left, right]
  | .chain operands _ => operands
  | .call _ args => args
  | _ => []

/-! ### Size -/

mutual

/-- The number of nodes. -/
def size : Expr ρ → Nat
  | .binary _ left right => left.size + right.size + 1
  | .chain operands _ => sizeList operands + 1
  | .call _ args => sizeList args + 1
  | _ => 1

/-- The number of nodes of several expressions. -/
def sizeList : List (Expr ρ) → Nat
  | [] => 0
  | e :: rest => e.size + sizeList rest

end

theorem sizeList_append (xs ys : List (Expr ρ)) :
    sizeList (xs ++ ys) = sizeList xs + sizeList ys := by
  induction xs with
  | nil => simp [sizeList]
  | cons e rest ih => simp [sizeList, ih, Nat.add_assoc]

theorem size_eq_sizeList_children (e : Expr ρ) : e.size = sizeList e.children + 1 := by
  cases e <;> simp [size, children, sizeList]

/-! ### Depth -/

/-- Visits the pending nodes, each given with its level, and keeps the deepest level seen. -/
def deepestLevel (pending : List (Expr ρ × Nat)) (deepest : Nat) : Nat :=
  match pending with
  | [] => deepest
  | (e, level) :: rest =>
    deepestLevel (e.children.map (·, level + 1) ++ rest) (max deepest level)
termination_by sizeList (pending.map Prod.fst)
decreasing_by
  simp only [List.map_append, List.map_map, List.map_cons, sizeList, sizeList_append,
    size_eq_sizeList_children e, Function.comp_def, List.map_id']
  omega

/-- The number of levels of the tree; a leaf has one. -/
def depth (e : Expr ρ) : Nat := deepestLevel [(e, 1)] 0

end Expr

/-- A statement of a script. -/
inductive Statement (ρ : Type) where
  /-- A bare expression. -/
  | expression (value : Expr ρ)
  /-- Overwrites an existing column. -/
  | assign (target : ρ) (value : Expr ρ)
  /-- Appends a column. -/
  | newColumn (name : String) (value : Expr ρ)

namespace Statement

variable {ρ : Type}

def isExpression : Statement ρ → Bool
  | .expression _ => true
  | _ => false

/-- The expression whose value the statement computes. -/
def value : Statement ρ → Expr ρ
  | .expression value => value
  | .assign _ value => value
  | .newColumn _ value => value

end Statement

end ColumnFormula
