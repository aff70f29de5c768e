import ColumnFormula.Proofs.Expr.ReaderSteps

/-!
# What the reader returns is derived

Every success of the reader of expressions comes with a derivation: the tokens it stepped over
derive the tree it returns, with less nesting than the levels it was given, and the tree is no
higher than the limit (`Parse.Sound`). Each combinator carries the property from its operands to
its result, so the six levels follow one another, and the knot through parentheses, calls and minus
signs is an induction on the levels of nesting (`sound_unary`).
-/

set_option autoImplicit false
set_option relaxedAutoImplicit false

namespace ColumnFormula

namespace Parse

/-- Whatever the reader returns, the tokens it read derive it within the limits. -/
def Sound (levels : Nat) (reader : Parse (Expr Reference)) (phrase : Expr Reference → Phrase) :
    Prop :=
  ∀ ⦃s t : ParserState⦄ ⦃e : Expr Reference⦄, reader s = .ok e t →
    ∃ read n, s = t.before read ∧ Derives (phrase e) (read.map LocatedToken.token) n ∧
      n < levels ∧ e.depth ≤ maxDepth

variable {levels : Nat} {operand : Parse (Expr Reference)}

/-! ### Levels of operators -/

/-- The loop over the links of a level: it reads links that extend the tree at its left. -/
theorem sound_leftAssociativeLoop {level : Precedence}
    (hoperand : Sound levels operand level.operand) (hlevels : 0 < levels) (count : Nat) :
    ∀ ⦃left e : Expr Reference⦄ ⦃s t : ParserState⦄, left.depth ≤ maxDepth →
      leftAssociativeLoop (operatorOf level) operand count left s = .ok e t →
      ∃ links read n, s = t.before read ∧
        Derives (.links level links) (read.map LocatedToken.token) n ∧ n < levels ∧
        e = leftTree left links ∧ e.depth ≤ maxDepth := by
  induction count with
  | zero =>
    intro left e s t hleft h
    cases h
    exact ⟨[], [], 0, rfl, .noLink, hlevels, rfl, hleft⟩
  | succ count ih =>
    intro left e s t hleft h
    rw [leftAssociativeLoop, current?_bind] at h
    cases hop : s.current?.bind (operatorOf level) with
    | none =>
      rw [hop] at h
      cases h
      exact ⟨[], [], 0, rfl, .noLink, hlevels, rfl, hleft⟩
    | some op =>
      rw [hop] at h
      simp only [advance_bind] at h
      obtain ⟨right, u, hright, hbehind⟩ := exists_of_bind_eq_ok h
      obtain ⟨node, v, hnode, hloop⟩ := exists_of_bind_eq_ok hbehind
      obtain ⟨rfl, rfl, hdepth⟩ := eq_of_bounded_eq_ok hnode
      obtain ⟨token, htoken, hop⟩ := Option.bind_eq_some_iff.mp hop
      obtain ⟨rfl, hprecedence⟩ := operatorOf_eq_some.mp hop
      obtain ⟨located, hlocated, hs⟩ := ParserState.exists_eq_before_of_current? htoken
      obtain ⟨readRight, m, hu, hderivesRight, hm, -⟩ := hoperand hright
      obtain ⟨links, readLinks, n, hv, hderivesLinks, hn, rfl, he⟩ := ih hdepth hloop
      refine ⟨(op, right) :: links, located :: (readRight ++ readLinks), max m n, ?_, ?_,
        Nat.max_lt.mpr ⟨hm, hn⟩, rfl, he⟩
      · rw [hs, hu, hv, ← ParserState.before_append, ← ParserState.before_append]
        rfl
      · rw [List.map_cons, List.map_append, hlocated]
        exact .link hprecedence hderivesRight hderivesLinks

theorem sound_leftAssociative (level : Precedence) (hlevel : level ≠ .comparison)
    (hoperand : Sound levels operand level.operand) :
    Sound levels (leftAssociative (operatorOf level) operand) (.level level) := by
  intro s t e h
  unfold leftAssociative at h
  obtain ⟨first, u, hfirst, hloop⟩ := exists_of_bind_eq_ok h
  rw [remaining_bind] at hloop
  obtain ⟨readFirst, m, rfl, hderivesFirst, hm, hdepth⟩ := hoperand hfirst
  obtain ⟨links, readLinks, n, rfl, hderivesLinks, hn, rfl, he⟩ :=
    sound_leftAssociativeLoop hoperand (Nat.zero_lt_of_lt hm) _ hdepth hloop
  refine ⟨readFirst ++ readLinks, max m n, ?_, ?_, Nat.max_lt.mpr ⟨hm, hn⟩, he⟩
  · rw [ParserState.before_append]
  · rw [List.map_append]
    exact .leftAssociative hlevel hderivesFirst hderivesLinks

/-- The loop over comparisons. -/
theorem sound_comparisonLinks (hoperand : Sound levels operand Precedence.comparison.operand)
    (hlevels : 0 < levels) (count : Nat) :
    ∀ ⦃links : List (Comparison × Expr Reference)⦄ ⦃s t : ParserState⦄,
      comparisonLinks operand count s = .ok links t →
      ∃ read n, s = t.before read ∧
        Derives (.links .comparison (links.map (Prod.map .comparison id)))
          (read.map LocatedToken.token) n ∧ n < levels := by
  induction count with
  | zero =>
    intro links s t h
    cases h
    exact ⟨[], 0, rfl, .noLink, hlevels⟩
  | succ count ih =>
    intro links s t h
    rw [comparisonLinks, current?_bind] at h
    cases hop : s.current?.bind comparison? with
    | none =>
      rw [hop] at h
      cases h
      exact ⟨[], 0, rfl, .noLink, hlevels⟩
    | some op =>
      rw [hop] at h
      simp only [advance_bind] at h
      obtain ⟨right, u, hright, hbehind⟩ := exists_of_bind_eq_ok h
      obtain ⟨others, v, hothers, hpair⟩ := exists_of_bind_eq_ok hbehind
      cases hpair
      obtain ⟨token, htoken, hop⟩ := Option.bind_eq_some_iff.mp hop
      obtain rfl := comparison?_eq_some.mp hop
      obtain ⟨located, hlocated, hs⟩ := ParserState.exists_eq_before_of_current? htoken
      obtain ⟨readRight, m, hu, hderivesRight, hm, -⟩ := hoperand hright
      obtain ⟨readLinks, n, hv, hderivesLinks, hn⟩ := ih hothers
      refine ⟨located :: (readRight ++ readLinks), max m n, ?_, ?_, Nat.max_lt.mpr ⟨hm, hn⟩⟩
      · rw [hs, hu, hv, ← ParserState.before_append, ← ParserState.before_append]
        rfl
      · rw [List.map_cons (f := LocatedToken.token), List.map_append, hlocated]
        exact .link rfl hderivesRight hderivesLinks

theorem sound_comparisons (hoperand : Sound levels operand Precedence.comparison.operand) :
    Sound levels (comparisons operand) (.level .comparison) := by
  intro s t e h
  unfold comparisons at h
  obtain ⟨first, u, hfirst, hbehind⟩ := exists_of_bind_eq_ok h
  rw [remaining_bind] at hbehind
  obtain ⟨links, v, hlinks, hresult⟩ := exists_of_bind_eq_ok hbehind
  obtain ⟨readFirst, m, rfl, hderivesFirst, hm, hdepth⟩ := hoperand hfirst
  obtain ⟨readLinks, n, rfl, hderivesLinks, hn⟩ :=
    sound_comparisonLinks hoperand (Nat.zero_lt_of_lt hm) _ hlinks
  have htree : e = comparisonTree first links ∧ t = v ∧ e.depth ≤ maxDepth := by
    match links, hresult with
    | [], hresult =>
      cases hresult
      exact ⟨rfl, rfl, hdepth⟩
    | [(op, right)], hresult =>
      obtain ⟨rfl, rfl, he⟩ := eq_of_bounded_eq_ok hresult
      exact ⟨rfl, rfl, he⟩
    | (op, right) :: second :: rest, hresult =>
      obtain ⟨rfl, rfl, he⟩ := eq_of_bounded_eq_ok hresult
      exact ⟨rfl, rfl, he⟩
  obtain ⟨rfl, rfl, he⟩ := htree
  refine ⟨readFirst ++ readLinks, max m n, ?_, ?_, Nat.max_lt.mpr ⟨hm, hn⟩, he⟩
  · rw [ParserState.before_append]
  · rw [List.map_append]
    exact .comparison hderivesFirst hderivesLinks

/-- The six levels over operands that are read soundly. -/
theorem sound_expressionOver (hoperand : Sound levels operand .unary) :
    Sound levels (expressionOver operand) (.level .or) := by
  have hmultiplicative := sound_leftAssociative .multiplicative nofun hoperand
  have hadditive := sound_leftAssociative .additive nofun hmultiplicative
  have hconcat := sound_leftAssociative .concat nofun hadditive
  have hcomparison := sound_comparisons hconcat
  have hand := sound_leftAssociative .and nofun hcomparison
  exact sound_leftAssociative .or nofun hand

/-! ### Operands -/

/-- The loop over the arguments of a call. The number of tokens left bounds it, and every argument
takes a token, so the bound is never used up before the closing parenthesis. -/
theorem sound_arguments {expression : Parse (Expr Reference)}
    (hexpression : Sound levels expression (.level .or)) (openPosition count : Nat) :
    ∀ ⦃args : List (Expr Reference)⦄ ⦃s t : ParserState⦄, s.rest.length ≤ count →
      arguments expression openPosition count s = .ok args t →
      ∃ read closing n, closing.token = .closeParen ∧ s = t.before (read ++ [closing]) ∧
        Derives (.arguments args) (read.map LocatedToken.token) n ∧ n < levels := by
  induction count with
  | zero =>
    intro args s t hcount h
    obtain ⟨last, u, hlast, -⟩ := exists_of_bind_eq_ok h
    obtain ⟨read, n, rfl, hderives, -⟩ := hexpression hlast
    obtain ⟨token, rest, hread, -⟩ := hderives.exists_startsOperand trivial
    have hlength := congrArg List.length hread
    simp only [List.length_map, List.length_cons, ParserState.rest_before,
      List.length_append] at hlength hcount
    omega
  | succ count ih =>
    intro args s t hcount h
    rw [arguments, current?_bind] at h
    split at h
    · rw [fail_apply] at h
      cases h
    · obtain ⟨arg, u, harg, hbehind⟩ := exists_of_bind_eq_ok h
      obtain ⟨read, m, rfl, hderives, hm, -⟩ := hexpression harg
      rw [current?_bind] at hbehind
      cases hnext : u.current? with
      | none =>
        rw [hnext] at hbehind
        cases hbehind
      | some token =>
        rw [hnext] at hbehind
        cases token with
        | comma =>
          simp only [advance_bind] at hbehind
          obtain ⟨others, v, hothers, hpair⟩ := exists_of_bind_eq_ok hbehind
          cases hpair
          obtain ⟨comma, hcomma, hu⟩ := ParserState.exists_eq_before_of_current? hnext
          have hlength : u.advance.rest.length ≤ count := by
            rw [hu, ← ParserState.before_append, ParserState.rest_before] at hcount
            simp only [List.length_append, List.length_singleton] at hcount
            omega
          obtain ⟨readOthers, closing, n, hclosing, hv, hderivesOthers, hn⟩ := ih hlength hothers
          refine ⟨read ++ comma :: readOthers, closing, max m n, hclosing, ?_, ?_,
            Nat.max_lt.mpr ⟨hm, hn⟩⟩
          · rw [hu, hv, ← ParserState.before_append, ← ParserState.before_append]
            simp
          · rw [List.map_append, List.map_cons, hcomma]
            exact .argument hderives hderivesOthers
        | closeParen =>
          cases hbehind
          obtain ⟨closing, hclosing, hu⟩ := ParserState.exists_eq_before_of_current? hnext
          refine ⟨read, closing, m, hclosing, ?_, .lastArgument hderives, hm⟩
          rw [ParserState.before_append, ← hu]
        | _ =>
          simp only [fail_apply] at hbehind
          cases hbehind

/-- A call whose opening parenthesis is the next token. -/
theorem sound_call {expression : Parse (Expr Reference)}
    (hexpression : Sound levels expression (.level .or)) {name : String} {s t : ParserState}
    {e : Expr Reference} (hopen : s.current? = some .openParen)
    (h : call expression name s = .ok e t) :
    ∃ read n, s = t.before read ∧
      (∀ word : LocatedToken, word.token = .identifier name →
        Derives (.primary e) (word.token :: read.map LocatedToken.token) n) ∧
      n < levels + 1 ∧ e.depth ≤ maxDepth := by
  obtain ⟨opening, hopening, hs⟩ := ParserState.exists_eq_before_of_current? hopen
  unfold call at h
  rw [position_bind, advance_bind, current?_bind] at h
  split at h
  · rename_i hclose
    rw [advance_bind] at h
    obtain ⟨rfl, rfl, hdepth⟩ := eq_of_bounded_eq_ok h
    obtain ⟨closing, hclosing, hu⟩ := ParserState.exists_eq_before_of_current? hclose
    refine ⟨[opening, closing], 0, ?_, ?_, Nat.succ_pos _, hdepth⟩
    · rw [hs, hu]
      rfl
    · intro word hword
      simp only [List.map_cons, List.map_nil, hword, hopening, hclosing]
      exact .callEmpty
  · rw [remaining_bind] at h
    obtain ⟨args, u, hargs, hresult⟩ := exists_of_bind_eq_ok h
    obtain ⟨rfl, rfl, hdepth⟩ := eq_of_bounded_eq_ok hresult
    obtain ⟨read, closing, n, hclosing, hu, hderives, hn⟩ :=
      sound_arguments hexpression _ _ (Nat.le_refl _) hargs
    refine ⟨opening :: (read ++ [closing]), n + 1, ?_, ?_, Nat.succ_lt_succ hn, hdepth⟩
    · rw [hs, hu, ← ParserState.before_append]
      rfl
    · intro word hword
      simp only [List.map_cons, List.map_append, List.map_nil, hword, hopening, hclosing]
      exact .call hderives

theorem sound_primary {expression : Parse (Expr Reference)}
    (hexpression : Sound levels expression (.level .or)) :
    Sound (levels + 1) (primary expression) .primary := by
  intro s t e h
  -- A token that is an operand by itself is read in one step.
  have hsingle : ∀ {token : Token}, s.current? = some token → token.operand? = some e →
      t = s.advance → ∃ read n, s = t.before read ∧
        Derives (.primary e) (read.map LocatedToken.token) n ∧ n < levels + 1 ∧
        e.depth ≤ maxDepth := by
    rintro token hcurrent hoperand rfl
    have hdepth := Token.depth_le_of_operand? hoperand
    obtain ⟨located, hlocated, hs⟩ := ParserState.exists_eq_before_of_current? hcurrent
    refine ⟨[located], 0, hs, ?_, Nat.succ_pos _, hdepth⟩
    simp only [List.map_cons, List.map_nil, hlocated]
    exact .single hoperand
  unfold primary at h
  rw [position_bind, current?_bind] at h
  match hcurrent : s.current?, h with
  | some (.number value), h =>
    cases h
    exact hsingle hcurrent rfl rfl
  | some (.text content), h =>
    cases h
    exact hsingle hcurrent rfl rfl
  | some (.boolean value), h =>
    cases h
    exact hsingle hcurrent rfl rfl
  | some .nil, h =>
    cases h
    exact hsingle hcurrent rfl rfl
  | some (.columnName name), h =>
    cases h
    exact hsingle hcurrent rfl rfl
  | some (.columnIndex index), h =>
    cases h
    exact hsingle hcurrent rfl rfl
  | some (.identifier name), h =>
    simp only [following?_bind, advance_bind] at h
    split at h
    · rename_i hopen
      obtain ⟨word, hword, hs⟩ := ParserState.exists_eq_before_of_current? hcurrent
      have hcall : s.advance.current? = some .openParen := hopen
      obtain ⟨read, n, hadvance, hderives, hn, hdepth⟩ := sound_call hexpression hcall h
      refine ⟨word :: read, n, ?_, hderives word hword, hn, hdepth⟩
      rw [hs, hadvance]
      rfl
    · cases h
      exact hsingle hcurrent rfl rfl
  | some .openParen, h =>
    simp only [advance_bind] at h
    obtain ⟨inner, u, hinner, hclose⟩ := exists_of_bind_eq_ok h
    rw [current?_bind] at hclose
    split at hclose
    · rename_i hnext
      cases hclose
      obtain ⟨opening, hopening, hs⟩ := ParserState.exists_eq_before_of_current? hcurrent
      obtain ⟨closing, hclosing, hu⟩ := ParserState.exists_eq_before_of_current? hnext
      obtain ⟨read, n, hadvance, hderives, hn, hdepth⟩ := hexpression hinner
      refine ⟨opening :: (read ++ [closing]), n + 1, ?_, ?_, Nat.succ_lt_succ hn, hdepth⟩
      · rw [ParserState.before_cons, ParserState.before_append, ← hu, ← hadvance]
        exact hs
      · simp only [List.map_cons, List.map_append, List.map_nil, hopening, hclosing]
        exact .parentheses hderives
    · cases hclose

/-- The knot: an operand with minus signs uses up one level of nesting, and below that level the
whole expressions in its parentheses and calls are read soundly. -/
theorem sound_unary (levels : Nat) : Sound levels (unary levels) .unary := by
  induction levels with
  | zero =>
    intro s t e h
    cases h
  | succ levels ih =>
    intro s t e h
    obtain ⟨u, hbody, hnested⟩ := exists_of_nested_eq_ok h
    rw [current?_bind] at hbody
    split at hbody
    · rename_i hminus
      rw [advance_bind] at hbody
      obtain ⟨operand, v, hoperand, hresult⟩ := exists_of_bind_eq_ok hbody
      obtain ⟨rfl, rfl, hdepth⟩ := eq_of_bounded_eq_ok hresult
      obtain ⟨minus, hsign, hs⟩ := ParserState.exists_eq_before_of_current? hminus
      obtain ⟨read, n, hadvance, hderives, hn, -⟩ := ih hoperand
      refine ⟨minus :: read, n + 1, hnested _ ?_, ?_, Nat.succ_lt_succ hn, hdepth⟩
      · rw [hs, hadvance]
        rfl
      · rw [List.map_cons, hsign]
        exact .minus hderives
    · obtain ⟨read, n, hread, hderives, hn, hdepth⟩ :=
        sound_primary (sound_expressionOver ih) hbody
      exact ⟨read, n, hnested _ hread, .primary hderives, hn, hdepth⟩

/-- An expression, read with as many levels of nesting as the open ones leave. -/
theorem sound_expression {s t : ParserState} {e : Expr Reference} (h : expression s = .ok e t) :
    ∃ read n, s = t.before read ∧ Derives (.level .or e) (read.map LocatedToken.token) n ∧
      n < maxDepth - s.nesting ∧ e.depth ≤ maxDepth :=
  sound_expressionOver (sound_unary (maxDepth - s.nesting)) h

end Parse

end ColumnFormula
