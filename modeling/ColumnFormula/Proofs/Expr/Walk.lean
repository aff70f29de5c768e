import ColumnFormula.Proofs.Expr.Height
import ColumnFormula.Proofs.Expr.ParserCalls
import ColumnFormula.Proofs.Expr.Recognition

/-!
# Walks over a tree

The walk that finds the height of a tree takes a pending node off its list, notes the level and puts
the children back one level deeper, until nothing is pending. The list grows in this way, but the
nodes that it stands for become one less with every round (`Round.nodes_eq`), and the deepest level
that is seen or still to come stays the same (`Round.bottom_eq`). Neither depends on the node that
is taken or on the place of its children. By induction on the rounds every walk through a tree ends
after as many rounds as the tree has nodes, with its height (`Rounds.nodes_eq`, `Rounds.bottom_eq`),
and `Expr.depth` is the end of such a walk (`rounds_deepestLevel`). A tree that a parser returns is
within the limit on the height (`ParserCall.depth_le`), and so are all of its parts.
-/

set_option autoImplicit false
set_option relaxedAutoImplicit false

namespace ColumnFormula.Expr

/-- A walk over trees at some point: the nodes still to be visited, each with its level, and the
deepest level seen. -/
structure Walk (ρ : Type) where
  pending : List (Expr ρ × Nat)
  deepest : Nat

namespace Walk

variable {ρ : Type}

/-- In front of the first round the root is pending. -/
def start (e : Expr ρ) : Walk ρ := ⟨[(e, 1)], 0⟩

/-- One round: some pending node is taken off, and its children are put anywhere among the others,
one level deeper. -/
inductive Round (before after : Walk ρ) : Prop
  | visit {e : Expr ρ} {level : Nat} {others : List (Expr ρ × Nat)}
      (htaken : before.pending.Perm ((e, level) :: others))
      (hput : after.pending.Perm (e.children.map (·, level + 1) ++ others))
      (hdeepest : after.deepest = max before.deepest level)

/-- The given number of rounds, one after the other. -/
inductive Rounds : Nat → Walk ρ → Walk ρ → Prop
  | refl (walk : Walk ρ) : Rounds 0 walk walk
  | head {n : Nat} {first next last : Walk ρ} (h : Round first next) (hrest : Rounds n next last) :
      Rounds (n + 1) first last

/-! ### What a round changes -/

/-- The number of nodes that are pending or lie below a pending one. -/
def nodes (walk : Walk ρ) : Nat := sizeList (walk.pending.map Prod.fst)

/-- The deepest level that is seen already or still to come. -/
def bottom (walk : Walk ρ) : Nat := max walk.deepest (reach walk.pending)

theorem sizeList_perm {first second : List (Expr ρ)} (h : first.Perm second) :
    sizeList first = sizeList second := by
  induction h with
  | nil => rfl
  | cons e _ ih => rw [sizeList, sizeList, ih]
  | swap e f rest => simp only [sizeList, Nat.add_left_comm]
  | trans _ _ ihfirst ihsecond => rw [ihfirst, ihsecond]

theorem reach_perm {first second : List (Expr ρ × Nat)} (h : first.Perm second) :
    reach first = reach second := by
  refine h.foldr_eq' (fun node _ other _ deepest ↦ ?_) 0
  exact Nat.max_left_comm _ _ _

theorem Round.nodes_eq {before after : Walk ρ} (h : Round before after) :
    before.nodes = after.nodes + 1 := by
  obtain @⟨e, level, others, htaken, hput, -⟩ := h
  have hchildren : (e.children.map (·, level + 1)).map Prod.fst = e.children := by
    simp only [List.map_map, Function.comp_def, List.map_id']
  have hbefore : before.nodes = e.size + sizeList (others.map Prod.fst) :=
    sizeList_perm (htaken.map _)
  have hafter : after.nodes = sizeList e.children + sizeList (others.map Prod.fst) := by
    rw [nodes, sizeList_perm (hput.map _), List.map_append, hchildren, sizeList_append]
  rw [hbefore, hafter, size_eq_sizeList_children e]
  omega

theorem Round.bottom_eq {before after : Walk ρ} (h : Round before after) :
    before.bottom = after.bottom := by
  obtain ⟨htaken, hput, hdeepest⟩ := h
  rw [bottom, bottom, reach_perm htaken, reach_perm hput, hdeepest, reach_cons, Nat.max_assoc]

/-- There is a next round as long as a node is pending. -/
theorem exists_round_iff {walk : Walk ρ} : (∃ next, Round walk next) ↔ walk.pending ≠ [] := by
  constructor
  · rintro ⟨next, htaken, -, -⟩ hnil
    rw [hnil] at htaken
    exact List.cons_ne_nil _ _ htaken.symm.eq_nil
  · intro hpending
    obtain ⟨⟨e, level⟩, others, hcons⟩ := List.exists_cons_of_ne_nil hpending
    exact ⟨⟨e.children.map (·, level + 1) ++ others, max walk.deepest level⟩,
      .visit (hcons ▸ .refl _) (.refl _) rfl⟩

/-! ### What all rounds come to -/

theorem Rounds.nodes_eq {n : Nat} {first last : Walk ρ} (h : Rounds n first last) :
    first.nodes = last.nodes + n := by
  induction h with
  | refl => rfl
  | head hround _ ih => rw [hround.nodes_eq, ih, Nat.add_assoc]

theorem Rounds.bottom_eq {n : Nat} {first last : Walk ρ} (h : Rounds n first last) :
    first.bottom = last.bottom := by
  induction h with
  | refl => rfl
  | head hround _ ih => rw [hround.bottom_eq, ih]

theorem nodes_start (e : Expr ρ) : (start e).nodes = e.size := by
  simp [start, nodes, sizeList]

theorem bottom_start (e : Expr ρ) : (start e).bottom = e.height := by
  simp [start, bottom, reach]

/-- The walk that takes the first of the pending nodes and puts the children in front of the
others. -/
theorem rounds_deepestLevel (pending : List (Expr ρ × Nat)) (deepest : Nat) :
    Rounds (nodes ⟨pending, deepest⟩) ⟨pending, deepest⟩
      ⟨[], deepestLevel pending deepest⟩ := by
  induction pending, deepest using deepestLevel.induct with
  | case1 deepest =>
    rw [deepestLevel]
    exact .refl _
  | case2 deepest e level rest ih =>
    have hround : Round ⟨(e, level) :: rest, deepest⟩
        ⟨e.children.map (·, level + 1) ++ rest, max deepest level⟩ :=
      .visit (.refl _) (.refl _) rfl
    rw [deepestLevel, hround.nodes_eq]
    exact .head hround ih

end Walk

/-! ### The height -/

variable {ρ : Type}

/-- What walks find out about a tree. -/
structure IsMeasured (e : Expr ρ) : Prop where
  /-- However the nodes are taken, a walk goes on as long as a node is pending. -/
  goes_on : ∀ n walk, Walk.Rounds n (.start e) walk →
    ((∃ next, Walk.Round walk next) ↔ walk.pending ≠ [])
  /-- It has no more rounds than the tree has nodes, so it ends. -/
  ends : ∀ n walk, Walk.Rounds n (.start e) walk → n ≤ e.size
  /-- At its end it has visited every node once, and the deepest level is the height. -/
  finds : ∀ n walk, Walk.Rounds n (.start e) walk → walk.pending = [] →
    n = e.size ∧ walk.deepest = e.height
  /-- The depth is what one of these walks finds. -/
  depth_walk : Walk.Rounds e.size (.start e) ⟨[], e.depth⟩
  depth_leaf : e.children = [] → e.depth = 1
  depth_node : e.children ≠ [] → (∃ child ∈ e.children, e.depth = child.depth + 1) ∧
    ∀ child ∈ e.children, child.depth + 1 ≤ e.depth
  depth_part : ∀ part : Expr ρ, part.IsPart e → part.depth ≤ e.depth

theorem isMeasured (e : Expr ρ) : e.IsMeasured where
  goes_on _ _ _ := Walk.exists_round_iff
  ends n walk h := by
    have hnodes := h.nodes_eq
    rw [Walk.nodes_start] at hnodes
    omega
  finds n walk h hpending := by
    have hnodes := h.nodes_eq
    have hbottom := h.bottom_eq
    rw [Walk.nodes_start, Walk.nodes, hpending, List.map_nil, sizeList, Nat.zero_add] at hnodes
    rw [Walk.bottom_start, Walk.bottom, hpending] at hbottom
    exact ⟨hnodes.symm, (hbottom.trans (Nat.max_zero _)).symm⟩
  depth_walk := by
    have hwalk := Walk.rounds_deepestLevel [(e, 1)] 0
    rw [← Walk.start, Walk.nodes_start] at hwalk
    exact hwalk
  depth_leaf hleaf := by
    rw [depth_eq_height, height_eq_heightList_children, hleaf]
    rfl
  depth_node h := ⟨exists_child_depth h, fun _ hmem ↦ depth_lt_of_mem_children hmem⟩
  depth_part _ hpart := hpart.depth_le

end ColumnFormula.Expr

namespace ColumnFormula

/-- The expression of a tree that a call returns. -/
def ParserCall.expressionOf : (call : ParserCall) → call.Tree → Expr Reference
  | .expression, e => e
  | .wholeExpression, e => e
  | .wholeStatement, statement => statement.value

/-- What a parser returns, called in whatever state, is within the limit. -/
theorem ParserCall.depth_le {call : ParserCall} {s t : ParserState} {tree : call.Tree}
    (h : call.reader s = .ok tree t) : (call.expressionOf tree).depth ≤ maxDepth := by
  cases call with
  | expression =>
    obtain ⟨-, -, -, -, -, hdepth⟩ := Parse.sound_expression h
    exact hdepth
  | wholeExpression =>
    obtain ⟨hexpression, -⟩ := Parse.expression_of_wholeExpression h
    obtain ⟨-, -, -, -, -, hdepth⟩ := Parse.sound_expression hexpression
    exact hdepth
  | wholeStatement =>
    obtain ⟨hstatement, -⟩ := Parse.statement_of_wholeStatement h
    obtain ⟨-, -, -, -, -, hdepth⟩ := Parse.sound_statement hstatement
    exact hdepth

/-- The walk over the pending nodes of any tree, bound or not, ends with its height, whichever node
is taken in a round; the height is one for a leaf and one more than the highest child for any other
node. Hence every part of an accepted tree is within the parser's limit, as the whole is. -/
theorem depth_measures :
    (∀ (ρ : Type) (e : Expr ρ), e.IsMeasured) ∧
    ∀ (call : ParserCall) (s t : ParserState) (tree : call.Tree), call.reader s = .ok tree t →
      ∀ part : Expr Reference, part.IsPart (call.expressionOf tree) → part.depth ≤ maxDepth := by
  refine ⟨fun ρ e ↦ e.isMeasured, fun call s t tree h part hpart ↦ ?_⟩
  exact Nat.le_trans hpart.depth_le (ParserCall.depth_le h)

/-- `F(nil) & true` has four nodes on three levels, and its call is within the limit. -/
theorem depth_measures_call :
    let call : Expr Reference := .call "F" [.nil]
    let e : Expr Reference := .binary .concat call (.boolean true)
    let tokens : List LocatedToken := [⟨.identifier "F", 0⟩, ⟨.openParen, 1⟩, ⟨.nil, 2⟩,
      ⟨.closeParen, 5⟩, ⟨.operator .concat, 7⟩, ⟨.boolean true, 9⟩]
    Expr.Walk.Rounds 4 (.start e) ⟨[], 3⟩ ∧
      ∃ t, ParserCall.wholeExpression.reader (.start ⟨tokens, 13⟩) = .ok e t ∧
        call.depth ≤ maxDepth := by
  intro call e tokens
  have hdepth : e.depth = 3 := by
    rw [Expr.depth_eq_height]
    rfl
  have hwalk := (depth_measures.1 Reference e).depth_walk
  rw [hdepth] at hwalk
  have hread : Parse.wholeExpression.result (.start ⟨tokens, 13⟩) = .ok e := by
    with_unfolding_all rfl
  obtain ⟨t, ht⟩ := Parse.result_eq_ok_iff.mp hread
  have hpart : call.IsPart e := .child List.mem_cons_self (.refl call)
  exact ⟨hwalk, t, ht, depth_measures.2 .wholeExpression _ t e ht call hpart⟩

end ColumnFormula
