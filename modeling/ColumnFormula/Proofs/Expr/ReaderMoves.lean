import ColumnFormula.Proofs.Expr.ReaderSteps

/-!
# What a reader does to its state

Whether it succeeds or fails, and with whatever error, a reader steps over tokens and does nothing
else to the state: it puts no token back, and every level of nesting that it has opened is closed
again (`ParserState.Reaches`). `Parse.Moves` says this of a reader from all states at once, together
with the faults that it may fail with. A sequence of two readers has the property if both have it
(`Parse.Moves.bind`), and `Parse.nested` is the one reader that changes the nesting, so the property
goes from the operands of each combinator to its result and through parentheses, calls and minus
signs by induction on the levels of nesting (`Parse.moves_unary`).
-/

set_option autoImplicit false
set_option relaxedAutoImplicit false

namespace ColumnFormula

/-- A fault that an expression may have inside. The others belong to a formula as a whole. -/
def ParseFault.IsInner : ParseFault → Prop
  | .trailingTokens _ => False
  | .emptyStatement => False
  | .assignmentNotAllowed => False
  | .invalidAssignmentTarget => False
  | _ => True

namespace ParserState

/-- The second state is the first one with some tokens stepped over. -/
structure Reaches (s t : ParserState) : Prop where
  rest : t.rest <:+ s.rest
  finish : t.finish = s.finish
  nesting : t.nesting = s.nesting

theorem Reaches.refl (s : ParserState) : s.Reaches s := ⟨List.suffix_refl _, rfl, rfl⟩

theorem Reaches.trans {s t u : ParserState} (hst : s.Reaches t) (htu : t.Reaches u) :
    s.Reaches u :=
  ⟨htu.rest.trans hst.rest, htu.finish.trans hst.finish, htu.nesting.trans hst.nesting⟩

theorem reaches_advance (s : ParserState) : s.Reaches s.advance :=
  ⟨List.tail_suffix _, rfl, rfl⟩

end ParserState

namespace Parse

variable {α β : Type}

/-- Reading has stepped over tokens only and, if it has failed, with one of the given faults. -/
def Settled (faults : ParseFault → Prop) (s : ParserState) :
    EStateM.Result ParseError ParserState α → Prop
  | .ok _ t => s.Reaches t
  | .error e t => s.Reaches t ∧ faults e.fault

/-- From every state the reader steps over tokens only and fails with the given faults only. -/
def Moves (faults : ParseFault → Prop) (reader : Parse α) : Prop :=
  ∀ s, Settled faults s (reader s)

/-! ### Primitive readers and sequences -/

section Primitives

variable {faults : ParseFault → Prop}

theorem Moves.mono {others : ParseFault → Prop} {reader : Parse α} (h : Moves faults reader)
    (hfaults : ∀ fault, faults fault → others fault) : Moves others reader := by
  intro s
  have hs := h s
  unfold Settled at hs ⊢
  split at hs
  · exact hs
  · exact ⟨hs.1, hfaults _ hs.2⟩

theorem Moves.fault_of_eq_error {reader : Parse α} (h : Moves faults reader) {s t : ParserState}
    {e : ParseError} (hread : reader s = .error e t) : faults e.fault := by
  have hs := h s
  rw [hread] at hs
  exact hs.2

theorem moves_pure (a : α) : Moves faults (pure a) := fun s ↦ .refl s

theorem moves_get : Moves faults get := fun s ↦ .refl s

theorem moves_current? : Moves faults current? := fun s ↦ .refl s

theorem moves_following? : Moves faults following? := fun s ↦ .refl s

theorem moves_position : Moves faults position := fun s ↦ .refl s

theorem moves_remaining : Moves faults remaining := fun s ↦ .refl s

theorem moves_advance : Moves faults advance := fun s ↦ s.reaches_advance

theorem moves_fail {fault : ParseFault} (h : faults fault) : Moves faults (fail fault : Parse α) :=
  fun s ↦ ⟨.refl s, h⟩

theorem moves_failAt (position : Nat) {fault : ParseFault} (h : faults fault) :
    Moves faults (failAt position fault : Parse α) :=
  fun s ↦ ⟨.refl s, h⟩

/-- A failure of the first reader is a failure of the sequence. -/
theorem Moves.bind {x : Parse α} {f : α → Parse β} (hx : Moves faults x)
    (hf : ∀ a, Moves faults (f a)) : Moves faults (x >>= f) := by
  intro s
  have hfirst := hx s
  show Settled faults s (EStateM.bind x f s)
  unfold EStateM.bind
  cases hread : x s with
  | ok a t =>
    rw [hread] at hfirst
    have hsecond := hf a t
    dsimp only
    cases hbehind : f a t with
    | ok b u =>
      rw [hbehind] at hsecond
      exact ParserState.Reaches.trans hfirst hsecond
    | error e u =>
      rw [hbehind] at hsecond
      exact ⟨ParserState.Reaches.trans hfirst hsecond.1, hsecond.2⟩
  | error e t =>
    rw [hread] at hfirst
    exact hfirst

/-- The level that is opened is closed, on success and on failure. -/
theorem Moves.nested {body : Parse α} (h : Moves faults body) : Moves faults (nested body) := by
  intro s
  have hclosed : ∀ {t : ParserState},
      ParserState.Reaches { s with nesting := s.nesting + 1 } t →
        s.Reaches { t with nesting := t.nesting - 1 } := by
    intro t ht
    have hnesting : t.nesting = s.nesting + 1 := ht.nesting
    exact ⟨ht.rest, ht.finish, by simp [hnesting]⟩
  have hbody := h { s with nesting := s.nesting + 1 }
  unfold Parse.nested
  split
  · rename_i a t hread
    rw [hread] at hbody
    exact hclosed hbody
  · rename_i e t hread
    rw [hread] at hbody
    exact ⟨hclosed hbody.1, hbody.2⟩

theorem moves_expect (token : Token)
    (h : ∀ found, faults (.unexpectedToken (.token token) found)) :
    Moves faults (expect token) := by
  refine moves_current?.bind fun found ↦ ?_
  split
  · exact moves_advance
  · exact moves_fail (h found)

end Primitives

theorem moves_bounded (e : Expr Reference) : Moves ParseFault.IsInner (bounded e) := by
  unfold bounded
  split
  · exact moves_fail trivial
  · exact moves_pure e

/-! ### Levels of operators -/

section Levels

variable {operand : Parse (Expr Reference)} (hoperand : Moves ParseFault.IsInner operand)

include hoperand

theorem moves_leftAssociativeLoop (operator? : Token → Option BinaryOp) (count : Nat) :
    ∀ left, Moves ParseFault.IsInner (leftAssociativeLoop operator? operand count left) := by
  induction count with
  | zero => exact moves_pure
  | succ count ih =>
    intro left
    refine moves_current?.bind fun next ↦ ?_
    split
    · exact moves_pure left
    · exact moves_advance.bind fun _ ↦ hoperand.bind fun right ↦ (moves_bounded _).bind ih

theorem moves_leftAssociative (operator? : Token → Option BinaryOp) :
    Moves ParseFault.IsInner (leftAssociative operator? operand) :=
  hoperand.bind fun first ↦ moves_remaining.bind fun count ↦
    moves_leftAssociativeLoop hoperand operator? count first

theorem moves_comparisonLinks (count : Nat) :
    Moves ParseFault.IsInner (comparisonLinks operand count) := by
  induction count with
  | zero => exact moves_pure []
  | succ count ih =>
    refine moves_current?.bind fun next ↦ ?_
    split
    · exact moves_pure []
    · exact moves_advance.bind fun _ ↦ hoperand.bind fun right ↦ ih.bind fun links ↦ moves_pure _

theorem moves_comparisons : Moves ParseFault.IsInner (comparisons operand) := by
  refine hoperand.bind fun first ↦ moves_remaining.bind fun count ↦
    (moves_comparisonLinks hoperand count).bind fun links ↦ ?_
  split
  · exact moves_pure first
  · exact moves_bounded _
  · exact moves_bounded _

theorem moves_expressionOver : Moves ParseFault.IsInner (expressionOver operand) := by
  have hmultiplicative := moves_leftAssociative hoperand multiplicative?
  have hadditive := moves_leftAssociative hmultiplicative additive?
  have hconcat := moves_leftAssociative hadditive concat?
  have hcomparison := moves_comparisons hconcat
  have hand := moves_leftAssociative hcomparison and?
  exact moves_leftAssociative hand or?

end Levels

/-! ### Operands -/

section Operands

variable {expression : Parse (Expr Reference)} (hexpression : Moves ParseFault.IsInner expression)

include hexpression

theorem moves_arguments (openPosition count : Nat) :
    Moves ParseFault.IsInner (arguments expression openPosition count) := by
  induction count with
  | zero => exact hexpression.bind fun last ↦ moves_pure [last]
  | succ count ih =>
    refine moves_current?.bind fun next ↦ ?_
    split
    · exact moves_fail trivial
    · refine hexpression.bind fun arg ↦ moves_current?.bind fun behind ↦ ?_
      split
      · exact moves_advance.bind fun _ ↦ ih.bind fun args ↦ moves_pure _
      · exact moves_advance.bind fun _ ↦ moves_pure _
      · exact moves_failAt openPosition trivial
      · exact moves_fail trivial

theorem moves_call (name : String) : Moves ParseFault.IsInner (call expression name) := by
  refine moves_position.bind fun openPosition ↦ moves_advance.bind fun _ ↦
    moves_current?.bind fun next ↦ ?_
  split
  · exact moves_advance.bind fun _ ↦ moves_bounded _
  · exact moves_remaining.bind fun count ↦
      (moves_arguments hexpression openPosition count).bind fun args ↦ moves_bounded _

theorem moves_primary : Moves ParseFault.IsInner (primary expression) := by
  have hsingle : ∀ e : Expr Reference, Moves ParseFault.IsInner (do advance; pure e) :=
    fun e ↦ moves_advance.bind fun _ ↦ moves_pure e
  refine moves_position.bind fun start ↦ moves_current?.bind fun next ↦ ?_
  split
  · exact hsingle _
  · exact hsingle _
  · exact hsingle _
  · exact hsingle _
  · refine moves_following?.bind fun behind ↦ moves_advance.bind fun _ ↦ ?_
    split
    · exact moves_call hexpression _
    · exact moves_pure _
  · exact hsingle _
  · exact hsingle _
  · refine moves_advance.bind fun _ ↦ hexpression.bind fun e ↦ moves_current?.bind fun closing ↦ ?_
    split
    · exact hsingle e
    · exact moves_failAt start trivial
  · exact moves_failAt start trivial

end Operands

/-- The knot: a level of nesting is opened, and what is read inside of it has one level less. -/
theorem moves_unary (levels : Nat) : Moves ParseFault.IsInner (unary levels) := by
  induction levels with
  | zero => exact moves_fail trivial
  | succ levels ih =>
    refine Moves.nested (moves_current?.bind fun next ↦ ?_)
    split
    · exact moves_advance.bind fun _ ↦ ih.bind fun operand ↦ moves_bounded _
    · exact moves_primary (moves_expressionOver ih)

/-! ### Expressions and statements -/

theorem moves_expression : Moves ParseFault.IsInner expression :=
  fun s ↦ moves_expressionOver (moves_unary (maxDepth - s.nesting)) s

theorem moves_atEnd {faults : ParseFault → Prop} (hparen : faults .unmatchedParen)
    (htrailing : ∀ token, faults (.trailingTokens token)) : Moves faults atEnd := by
  refine moves_current?.bind fun next ↦ ?_
  split
  · exact moves_pure ()
  · exact moves_fail hparen
  · exact moves_fail (htrailing _)

/-- Any fault may be reported where a formula is read as a whole. -/
def AnyFault (_ : ParseFault) : Prop := True

theorem moves_anyExpression : Moves AnyFault expression :=
  moves_expression.mono fun _ _ ↦ trivial

theorem moves_wholeExpression : Moves AnyFault wholeExpression := by
  refine moves_current?.bind fun next ↦ ?_
  split
  · exact moves_fail trivial
  · exact moves_fail trivial
  · refine moves_anyExpression.bind fun e ↦ moves_current?.bind fun behind ↦ ?_
    split
    · exact moves_fail trivial
    · exact (moves_atEnd trivial fun _ ↦ trivial).bind fun _ ↦ moves_pure e

theorem moves_newColumn : Moves AnyFault newColumn := by
  have hexpect : ∀ token, Moves AnyFault (expect token) :=
    fun token ↦ moves_expect token fun _ ↦ trivial
  refine moves_advance.bind fun _ ↦ (hexpect .openParen).bind fun _ ↦
    moves_current?.bind fun next ↦ ?_
  split
  · exact moves_advance.bind fun _ ↦ (hexpect .closeParen).bind fun _ ↦
      (hexpect .assign).bind fun _ ↦ moves_anyExpression.bind fun value ↦ moves_pure _
  · exact moves_fail trivial

theorem moves_statement : Moves AnyFault statement := by
  refine moves_get.bind fun start ↦ ?_
  split
  · exact moves_advance.bind fun _ ↦ moves_advance.bind fun _ ↦
      moves_anyExpression.bind fun value ↦ moves_pure _
  · split
    · exact moves_fail trivial
    · exact moves_newColumn
    · refine moves_anyExpression.bind fun e ↦ moves_current?.bind fun behind ↦ ?_
      split
      · exact moves_fail trivial
      · exact moves_pure _

theorem moves_wholeStatement : Moves AnyFault wholeStatement :=
  moves_statement.bind fun result ↦
    (moves_atEnd trivial fun _ ↦ trivial).bind fun _ ↦ moves_pure result

end Parse

end ColumnFormula
