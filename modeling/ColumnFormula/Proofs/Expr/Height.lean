import ColumnFormula.Expr

/-!
# The height of an expression

`Expr.depth` walks over a list of pending nodes and keeps the deepest level seen. Here the walk is
compared with the height that the shape of the tree gives (`Expr.height`). The invariant is on the
whole list: what is still to come is the largest level that any pending node reaches below itself
(`deepestLevel_eq`). From `depth_eq_height` follows what the limit on the height of a formula rests
on: every direct subexpression is strictly lower (`depth_lt_of_mem_children`), so no part of a tree
is higher than the whole (`IsPart.depth_le`).
-/

set_option autoImplicit false
set_option relaxedAutoImplicit false

namespace ColumnFormula.Expr

variable {ρ : Type}

/-! ### The height by shape -/

mutual

/-- One level for a leaf, and one more than the highest child for every other node. -/
def height : Expr ρ → Nat
  | .binary _ left right => max left.height right.height + 1
  | .chain operands _ => heightList operands + 1
  | .call _ args => heightList args + 1
  | _ => 1

/-- The height of the highest of several expressions, zero for none. -/
def heightList : List (Expr ρ) → Nat
  | [] => 0
  | e :: rest => max e.height (heightList rest)

end

theorem height_eq_heightList_children (e : Expr ρ) : e.height = heightList e.children + 1 := by
  cases e <;> simp [height, children, heightList]

theorem height_pos (e : Expr ρ) : 0 < e.height := by
  rw [height_eq_heightList_children]
  exact Nat.succ_pos _

theorem height_le_heightList {e : Expr ρ} {es : List (Expr ρ)} (h : e ∈ es) :
    e.height ≤ heightList es := by
  induction es with
  | nil => simp at h
  | cons first rest ih =>
    rw [heightList]
    rcases List.mem_cons.mp h with rfl | hrest
    · exact Nat.le_max_left _ _
    · exact Nat.le_trans (ih hrest) (Nat.le_max_right _ _)

/-- The height of several expressions is that of one of them. -/
theorem exists_height_eq_heightList {es : List (Expr ρ)} (h : es ≠ []) :
    ∃ e ∈ es, e.height = heightList es := by
  induction es with
  | nil => exact absurd rfl h
  | cons first rest ih =>
    rw [heightList]
    rcases Nat.le_total (heightList rest) first.height with hle | hle
    · exact ⟨first, List.mem_cons_self, (Nat.max_eq_left hle).symm⟩
    · have hrest : rest ≠ [] := by
        rintro rfl
        exact absurd hle (Nat.not_le.mpr first.height_pos)
      obtain ⟨e, hmem, hheight⟩ := ih hrest
      exact ⟨e, List.mem_cons_of_mem _ hmem, hheight.trans (Nat.max_eq_right hle).symm⟩

/-! ### The walk over pending nodes -/

/-- The deepest level that pending nodes reach: the level of a node counts its own row, so a node
of height one reaches no further than that. -/
def reach (pending : List (Expr ρ × Nat)) : Nat :=
  pending.foldr (fun node deepest ↦ max (node.1.height + node.2 - 1) deepest) 0

theorem reach_append (first second : List (Expr ρ × Nat)) :
    reach (first ++ second) = max (reach first) (reach second) := by
  induction first with
  | nil => simp [reach]
  | cons node rest ih =>
    simp only [reach, List.cons_append, List.foldr_cons] at ih ⊢
    rw [ih, Nat.max_assoc]

/-- Nodes that stand on one level reach as far as the highest of them. -/
theorem reach_map_level (es : List (Expr ρ)) (level : Nat) :
    max level (reach (es.map (·, level + 1))) = heightList es + level := by
  induction es with
  | nil => simp [reach, heightList]
  | cons e rest ih =>
    have hpos := e.height_pos
    simp only [reach, List.map_cons, List.foldr_cons, heightList] at ih ⊢
    omega

/-- A node reaches as far as its own level and its children on the next one. -/
theorem reach_cons (e : Expr ρ) (level : Nat) (rest : List (Expr ρ × Nat)) :
    reach ((e, level) :: rest) =
      max level (reach (e.children.map (·, level + 1) ++ rest)) := by
  have hchildren := reach_map_level e.children level
  rw [reach_append, ← Nat.max_assoc, hchildren]
  simp only [reach, List.foldr_cons, height_eq_heightList_children e]
  omega

/-- The invariant of the walk: its result is the deepest level seen so far or the deepest one that
the pending nodes still reach. -/
theorem deepestLevel_eq (pending : List (Expr ρ × Nat)) (deepest : Nat) :
    deepestLevel pending deepest = max deepest (reach pending) := by
  induction pending, deepest using deepestLevel.induct with
  | case1 deepest => simp [deepestLevel, reach]
  | case2 deepest e level rest ih =>
    rw [deepestLevel, ih, reach_cons, Nat.max_assoc]

/-- The walk finds the height of the tree. -/
theorem depth_eq_height (e : Expr ρ) : e.depth = e.height := by
  rw [depth, deepestLevel_eq]
  simp [reach]

theorem depth_pos (e : Expr ρ) : 0 < e.depth := by
  rw [depth_eq_height]
  exact e.height_pos

/-- Every direct subexpression is lower than the whole. -/
theorem depth_lt_of_mem_children {e child : Expr ρ} (h : child ∈ e.children) :
    child.depth < e.depth := by
  rw [depth_eq_height, depth_eq_height, height_eq_heightList_children e]
  exact Nat.lt_succ_of_le (height_le_heightList h)

/-- A node has one level more than one of its children. -/
theorem exists_child_depth {e : Expr ρ} (h : e.children ≠ []) :
    ∃ child ∈ e.children, e.depth = child.depth + 1 := by
  obtain ⟨child, hmem, hheight⟩ := exists_height_eq_heightList h
  refine ⟨child, hmem, ?_⟩
  rw [depth_eq_height, depth_eq_height, height_eq_heightList_children, hheight]

/-! ### Parts of trees -/

/-- The first tree is the second one or lies below it. -/
inductive IsPart : Expr ρ → Expr ρ → Prop
  | refl (e : Expr ρ) : IsPart e e
  | child {part child e : Expr ρ} (hmem : child ∈ e.children) (h : IsPart part child) :
      IsPart part e

theorem IsPart.depth_le {part e : Expr ρ} (h : part.IsPart e) : part.depth ≤ e.depth := by
  induction h with
  | refl => exact Nat.le_refl _
  | child hmem _ ih => exact Nat.le_trans ih (Nat.le_of_lt (depth_lt_of_mem_children hmem))

end ColumnFormula.Expr
