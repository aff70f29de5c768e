import ColumnFormula.Proofs.Source.Padding
import ColumnFormula.Proofs.Source.Tokens

/-!
# Where compiling refuses for depth

A text whose tokens derive an expression either compiles to that expression or is refused as too
deep, and the two limits alone decide which (`compileExpression_of_derives`). Both limits are 200,
but they are kept in different ways. A tree may have exactly 200 levels. The nesting must stay
below 200, because the operand inside all parentheses, calls and minus signs takes a level of its
own: 199 parentheses around a number are read (`compileExpression_of_derives_enclosed`), and 200 are
one too many, although the tree has a single level (`compileExpression_two_hundred_parentheses`).
-/

set_option autoImplicit false
set_option relaxedAutoImplicit false

namespace ColumnFormula

/-! ### Past the limits -/

/-- What an expression of its tokens is refused for is its depth. -/
theorem Parse.isTooDeep_wholeExpression {tokens : List LocatedToken} {finish n : Nat}
    {e : Expr Reference} (hderives : Derives (.level .or e) (tokens.map LocatedToken.token) n)
    (hpast : ¬(n < maxDepth ∧ e.depth ≤ maxDepth)) :
    IsTooDeep (wholeExpression (.start ⟨tokens, finish⟩)) := by
  let t : ParserState := ⟨[], finish, 0⟩
  have hstart : ParserState.start ⟨tokens, finish⟩ = t.before tokens := by
    simp [ParserState.start, ParserState.before, t]
  have hrefused : IsTooDeep (expression (.start ⟨tokens, finish⟩)) := by
    rw [hstart]
    exact (decides_expression (t := t) hderives (stopsAt_none 0)).isTooDeep hpast
  obtain ⟨token, rest, htokens, hoperand⟩ := hderives.exists_startsOperand trivial
  obtain ⟨located, behind, rfl, rfl, -⟩ := List.map_eq_cons_iff.mp htokens
  rw [wholeExpression_of_current? rfl hoperand.ne_sign.2.2]
  exact hrefused.bind _

theorem compileExpression_tooDeep {cs : List Char} {tokens : List Token} {e : Expr Reference}
    {n : Nat} (htokens : tokens? cs = some tokens) (hderives : Derives (.level .or e) tokens n)
    (hpast : ¬(n < maxDepth ∧ e.depth ≤ maxDepth)) :
    ∃ position, compileExpression (.ofList cs) = .error (.parse ⟨.tooDeep, position⟩) := by
  obtain ⟨list, hlist, rfl⟩ := tokens?_eq_some_iff.mp htokens
  have hrefused : Parse.IsTooDeep (Parse.wholeExpression (.start list)) :=
    Parse.isTooDeep_wholeExpression hderives hpast
  obtain ⟨position, t, herror⟩ := hrefused
  refine ⟨position, ?_⟩
  rw [compileExpression, compileWith, tokenize, String.toList_ofList, hlist]
  simp only [Parse.result, herror]
  rfl

/-! ### A number in parentheses -/

/-- The number one inside of the given number of parentheses. -/
def enclosedOne (count : Nat) : List Char :=
  List.replicate count '(' ++ '1' :: List.replicate count ')'

/-- The tokens inside of the given number of parentheses. -/
def enclosedTokens (count : Nat) (tokens : List Token) : List Token :=
  List.replicate count .openParen ++ tokens ++ List.replicate count .closeParen

/-- The number that the digit in `enclosedOne` spells. -/
def digitOne : Binary64 := Numeral.toBinary64 false ⟨1, 0⟩

/-- Repeated signs in front of a text are tokens of their own, if none goes on into what follows. -/
theorem tokens?_replicate_append {sign : Char} {token : Token}
    (hsign : ([sign], token) ∈ Token.signs) (hend : ∀ rest, token.EndsBefore rest) (count : Nat)
    (cs : List Char) :
    tokens? (List.replicate count sign ++ cs) =
      (tokens? cs).map (List.replicate count token ++ ·) := by
  induction count with
  | zero => simp
  | succ count ih =>
    have hstep := tokens?_spelling blank_nil (.sign hsign) (hend (List.replicate count sign ++ cs))
    rw [ih] at hstep
    simpa [List.replicate_succ, Function.comp_def] using hstep

theorem spelledBy_digitOne : (Token.number digitOne).SpelledBy ['1'] :=
  have hliteral : ['1'].all isLiteralChar = true := by decide +kernel
  have hread : readPlainNumeral? ['1'] = some ⟨1, 0⟩ := rfl
  .number (List.all_eq_true.mp hliteral) rfl hread

theorem tokens?_enclosedOne (count : Nat) :
    tokens? (enclosedOne count) = some (enclosedTokens count [.number digitOne]) := by
  have hopensign : (['('], Token.openParen) ∈ Token.signs := by decide
  have hclosesign : ([')'], Token.closeParen) ∈ Token.signs := by decide
  have hclosing : tokens? (List.replicate count ')') =
      some (List.replicate count .closeParen) := by
    have hreplicate := tokens?_replicate_append hclosesign (fun _ ↦ trivial) count []
    rw [List.append_nil, tokens?_blank blank_nil] at hreplicate
    simpa using hreplicate
  have hboundary : (Token.number digitOne).EndsBefore (List.replicate count ')') := by
    cases count with
    | zero => exact nofun
    | succ count => exact boundary_cons (by decide +kernel) _
  have hone := tokens?_spelling blank_nil spelledBy_digitOne hboundary
  rw [List.nil_append, List.singleton_append, hclosing] at hone
  rw [enclosedOne, tokens?_replicate_append hopensign (fun _ ↦ trivial), hone]
  simp [enclosedTokens]

theorem derives_enclosedTokens {e : Expr Reference} {tokens : List Token} {n : Nat}
    (h : Derives (.level .or e) tokens n) (count : Nat) :
    Derives (.level .or e) (enclosedTokens count tokens) (n + count) := by
  induction count with
  | zero => simpa [enclosedTokens] using h
  | succ count ih =>
    have houter := (Derives.parentheses ih).or_of_primary
    have hshape : enclosedTokens (count + 1) tokens =
        .openParen :: (enclosedTokens count tokens ++ [.closeParen]) := by
      rw [enclosedTokens, List.replicate_succ, List.replicate_succ']
      simp [enclosedTokens]
    rw [hshape]
    exact houter

theorem depth_digitOne : (Expr.number digitOne : Expr Reference).depth ≤ maxDepth := by
  rw [Expr.depth_eq_height]
  decide

theorem derives_digitOne : Derives (.level .or (.number digitOne)) [.number digitOne] 0 :=
  (Derives.single rfl).or_of_primary

/-! ### The limits -/

/-- A text whose tokens derive an expression compiles to that expression if every operand lies
inside fewer than 200 parentheses, argument lists and unary minus signs and the tree has at most 200
levels. If one of the limits is passed, the text is refused as too deep. -/
theorem compileExpression_of_derives {cs : List Char} {tokens : List Token} {e : Expr Reference}
    {nesting : Nat} (htokens : tokens? cs = some tokens)
    (hderives : Derives (.level .or e) tokens nesting) :
    (nesting < 200 ∧ e.depth ≤ 200 → compileExpression (.ofList cs) = .ok e) ∧
      (200 ≤ nesting ∨ 200 < e.depth →
        ∃ position, compileExpression (.ofList cs) = .error (.parse ⟨.tooDeep, position⟩)) := by
  constructor
  · rintro ⟨hnesting, hdepth⟩
    exact compileExpression_eq_ok_iff.mpr ⟨tokens, nesting, htokens, hderives, hnesting, hdepth⟩
  · intro hpast
    refine compileExpression_tooDeep htokens hderives ?_
    rintro ⟨hnesting, hdepth⟩
    have hlimit : maxDepth = 200 := rfl
    omega

theorem compileExpression_of_derives_enclosed :
    compileExpression (.ofList (enclosedOne 199)) = .ok (.number digitOne) ∧
      ∃ position, compileExpression (.ofList (enclosedOne 200)) =
        .error (.parse ⟨.tooDeep, position⟩) :=
  ⟨(compileExpression_of_derives (tokens?_enclosedOne 199)
      (derives_enclosedTokens derives_digitOne 199)).1 ⟨by decide, depth_digitOne⟩,
    (compileExpression_of_derives (tokens?_enclosedOne 200)
      (derives_enclosedTokens derives_digitOne 200)).2 (.inl (by decide))⟩

/-- Two hundred parentheses around a number are not more than 200, and the tree has one level, but
the text is refused. -/
theorem compileExpression_two_hundred_parentheses :
    ∃ tokens e nesting, tokens? (enclosedOne 200) = some tokens ∧
      Derives (.level .or e) tokens nesting ∧ nesting ≤ 200 ∧ e.depth ≤ 200 ∧
      ∃ position, compileExpression (.ofList (enclosedOne 200)) =
        .error (.parse ⟨.tooDeep, position⟩) :=
  have hderives := derives_enclosedTokens derives_digitOne 200
  ⟨_, _, _, tokens?_enclosedOne 200, hderives, Nat.le_refl _, depth_digitOne,
    compileExpression_tooDeep (tokens?_enclosedOne 200) hderives
      fun hwithin ↦ absurd hwithin.1 (by decide)⟩

end ColumnFormula
