import ColumnFormula.Formula
import ColumnFormula.Proofs.Expr.Completeness
import ColumnFormula.Proofs.Expr.Soundness

/-!
# The language of formulas

Reading accepts exactly the language of the grammar, within the two limits, and returns the tree
that the grammar prescribes: for a bare expression (`wholeExpression_eq_ok_iff`), for a statement
(`wholeStatement_eq_ok_iff`), and for both in `accepts_iff_derives`. Reading is a function, so no
list of tokens derives two trees within the limits.
-/

set_option autoImplicit false
set_option relaxedAutoImplicit false

namespace ColumnFormula

namespace Parse

variable {α : Type}

theorem result_eq_ok_iff {reader : Parse α} {s : ParserState} {a : α} :
    reader.result s = .ok a ↔ ∃ t, reader s = .ok a t := by
  unfold result
  cases reader s with
  | ok b t => simp
  | error e t => simp

/-- Reading may end exactly where no token is left. -/
theorem atEnd_eq_ok_iff {s t : ParserState} : atEnd s = .ok () t ↔ s.current? = none ∧ t = s := by
  rw [atEnd, current?_bind]
  cases s.current? with
  | none => simp only [pure_apply, EStateM.Result.ok.injEq, true_and, eq_comm]
  | some token => cases token <;> simp [fail_apply]

theorem atEnd_ok {s : ParserState} (h : s.current? = none) : atEnd s = .ok () s :=
  atEnd_eq_ok_iff.mpr ⟨h, rfl⟩

/-- Where no token is left, all tokens have been read. -/
theorem eq_read_of_current? {tokens read : List LocatedToken} {finish : Nat} {t : ParserState}
    (hread : ParserState.start ⟨tokens, finish⟩ = t.before read) (hend : t.current? = none) :
    tokens = read := by
  have hrest : tokens = read ++ t.rest := congrArg ParserState.rest hread
  rw [ParserState.rest_eq_nil_of_current? hend, List.append_nil] at hrest
  exact hrest

/-! ### Bare expressions -/

theorem wholeExpression_of_none {s : ParserState} (h : s.current? = none) :
    wholeExpression s = .error ⟨.emptyStatement, s.position⟩ s := by
  rw [wholeExpression, current?_bind, h]
  rfl

theorem wholeExpression_of_new {s : ParserState} (h : s.current? = some .new) :
    wholeExpression s = .error ⟨.assignmentNotAllowed, s.position⟩ s := by
  rw [wholeExpression, current?_bind, h]
  rfl

/-- What is read behind the check of the first token. -/
theorem wholeExpression_of_current? {s : ParserState} {token : Token}
    (h : s.current? = some token) (hnew : token ≠ .new) :
    wholeExpression s = (do
      let e ← expression
      if (← current?) = some Token.assign then fail .assignmentNotAllowed
      else
        atEnd
        pure e) s := by
  rw [wholeExpression, current?_bind, h]
  cases token with
  | new => exact absurd rfl hnew
  | _ => rfl

/-- A bare expression is an expression behind which nothing is left. -/
theorem expression_of_wholeExpression {s t : ParserState} {e : Expr Reference}
    (h : wholeExpression s = .ok e t) : expression s = .ok e t ∧ t.current? = none := by
  cases hcurrent : s.current? with
  | none =>
    rw [wholeExpression_of_none hcurrent] at h
    cases h
  | some token =>
    have hnew : token ≠ .new := by
      rintro rfl
      rw [wholeExpression_of_new hcurrent] at h
      cases h
    rw [wholeExpression_of_current? hcurrent hnew] at h
    obtain ⟨f, u, hexpression, hbehind⟩ := exists_of_bind_eq_ok h
    rw [current?_bind] at hbehind
    split at hbehind
    · rw [fail_apply] at hbehind
      cases hbehind
    · obtain ⟨⟨⟩, v, hend, hpure⟩ := exists_of_bind_eq_ok hbehind
      cases hpure
      obtain ⟨hcurrent, rfl⟩ := atEnd_eq_ok_iff.mp hend
      exact ⟨hexpression, hcurrent⟩

/-- A bare expression is accepted exactly if its tokens derive it within the limits. -/
theorem wholeExpression_eq_ok_iff {tokens : List LocatedToken} {finish : Nat}
    {e : Expr Reference} :
    wholeExpression.result (.start ⟨tokens, finish⟩) = .ok e ↔
      ∃ n, Derives (.level .or e) (tokens.map LocatedToken.token) n ∧ n < maxDepth ∧
        e.depth ≤ maxDepth := by
  rw [result_eq_ok_iff]
  constructor
  · rintro ⟨t, h⟩
    obtain ⟨hexpression, hcurrent⟩ := expression_of_wholeExpression h
    obtain ⟨read, n, hread, hderives, hn, hdepth⟩ := sound_expression hexpression
    obtain rfl := eq_read_of_current? hread hcurrent
    exact ⟨n, hderives, hn, hdepth⟩
  · rintro ⟨n, hderives, hn, hdepth⟩
    let t : ParserState := ⟨[], finish, 0⟩
    have hread : expression (.start ⟨tokens, finish⟩) = .ok e t := by
      have hstart : ParserState.start ⟨tokens, finish⟩ = t.before tokens := by
        simp [ParserState.start, ParserState.before, t]
      rw [hstart]
      exact complete_expression hderives hn hdepth (stopsAt_none 0)
    obtain ⟨token, rest, htokens, hstart⟩ := hderives.exists_startsOperand trivial
    obtain ⟨located, behind, rfl, rfl, -⟩ := List.map_eq_cons_iff.mp htokens
    refine ⟨t, ?_⟩
    rw [wholeExpression_of_current? rfl hstart.ne_sign.2.2, bind_ok hread, current?_bind]
    rfl

/-! ### Statements -/

theorem statement_of_none {s : ParserState} (h : s.current? = none) :
    statement s = .error ⟨.emptyStatement, s.position⟩ s := by
  have htarget : assignmentTarget? s = none := by
    rw [assignmentTarget?, h]
    exact ite_self none
  rw [statement, get_bind, htarget]
  simp only [h, fail_apply]

/-- What is read when the statement is an assignment. -/
theorem statement_of_target {s : ParserState} {target : Reference}
    (h : assignmentTarget? s = some target) :
    statement s = (do
      let value ← expression
      pure (Statement.assign target value)) s.advance.advance := by
  rw [statement, get_bind, h]
  simp only [advance_bind]

/-- What is read when the statement begins with the word `NEW`. -/
theorem statement_of_new {s : ParserState} (htarget : assignmentTarget? s = none)
    (h : s.current? = some .new) : statement s = newColumn s := by
  rw [statement, get_bind, htarget]
  simp only [h]

/-- What is read when the statement is a bare expression. -/
theorem statement_of_current? {s : ParserState} {token : Token}
    (htarget : assignmentTarget? s = none) (h : s.current? = some token) (hnew : token ≠ .new) :
    statement s = (do
      let e ← expression
      if (← current?) = some Token.assign then fail .invalidAssignmentTarget
      else pure (Statement.expression e)) s := by
  rw [statement, get_bind, htarget]
  cases token with
  | new => exact absurd rfl hnew
  | _ => simp only [h]

/-- The tokens in front of the value of a new column. -/
def newColumnHead (name : String) : List Token :=
  [.new, .openParen, .text name, .closeParen, .assign]

theorem newColumn_sound {s t : ParserState} {statement : Statement Reference}
    (hnew : s.current? = some .new) (h : newColumn s = .ok statement t) :
    ∃ name e u head, head.map LocatedToken.token = newColumnHead name ∧ s = u.before head ∧
      expression u = .ok e t ∧ statement = .newColumn name e := by
  rw [newColumn, advance_bind] at h
  obtain ⟨hopen, hbehind⟩ := exists_of_expect_bind_eq_ok h
  rw [current?_bind] at hbehind
  cases hname : s.advance.advance.current? with
  | none =>
    rw [hname] at hbehind
    cases hbehind
  | some token =>
    rw [hname] at hbehind
    cases token with
    | text name =>
      simp only [advance_bind] at hbehind
      obtain ⟨hclose, hassignBind⟩ := exists_of_expect_bind_eq_ok hbehind
      obtain ⟨hassign, hvalueBind⟩ := exists_of_expect_bind_eq_ok hassignBind
      obtain ⟨e, u, hvalue, hpure⟩ := exists_of_bind_eq_ok hvalueBind
      cases hpure
      obtain ⟨new, hnewToken, hs⟩ := ParserState.exists_eq_before_of_current? hnew
      obtain ⟨opening, hopening, hs₁⟩ := ParserState.exists_eq_before_of_current? hopen
      obtain ⟨quoted, hquoted, hs₂⟩ := ParserState.exists_eq_before_of_current? hname
      obtain ⟨closing, hclosing, hs₃⟩ := ParserState.exists_eq_before_of_current? hclose
      obtain ⟨sign, hsign, hs₄⟩ := ParserState.exists_eq_before_of_current? hassign
      refine ⟨name, e, _, [new, opening, quoted, closing, sign], ?_, ?_, hvalue, rfl⟩
      · simp only [List.map_cons, List.map_nil, hnewToken, hopening, hquoted, hclosing, hsign,
          newColumnHead]
      · exact ParserState.eq_before_cons hs <| ParserState.eq_before_cons hs₁ <|
          ParserState.eq_before_cons hs₂ <| ParserState.eq_before_cons hs₃ hs₄
    | _ =>
      simp only [fail_apply] at hbehind
      cases hbehind

theorem newColumn_before {t : ParserState} {name : String} {head : List LocatedToken}
    (h : head.map LocatedToken.token = newColumnHead name) :
    newColumn (t.before head) = (do
      let value ← expression
      pure (Statement.newColumn name value)) t := by
  obtain ⟨new, behind, rfl, hnew, hbehind⟩ := List.map_eq_cons_iff.mp h
  obtain ⟨opening, behind, rfl, hopening, hbehind⟩ := List.map_eq_cons_iff.mp hbehind
  obtain ⟨quoted, behind, rfl, hquoted, hbehind⟩ := List.map_eq_cons_iff.mp hbehind
  obtain ⟨closing, behind, rfl, hclosing, hbehind⟩ := List.map_eq_cons_iff.mp hbehind
  obtain ⟨sign, rfl, hsign⟩ := List.map_eq_singleton_iff.mp hbehind
  rw [newColumn, advance_bind, expect_bind (by simp [hopening]), current?_bind]
  simp only [ParserState.advance_before_cons, ParserState.current?_before_cons, hquoted,
    advance_bind]
  rw [expect_bind (by simp [hclosing]), expect_bind (by simp [hsign])]
  rfl

/-- The target of an assignment stands directly before the sign. -/
theorem exists_of_assignmentTarget? {s : ParserState} {target : Reference}
    (h : assignmentTarget? s = some target) :
    ∃ column sign : LocatedToken, reference? column.token = some target ∧ sign.token = .assign ∧
      s = s.advance.advance.before [column, sign] := by
  unfold assignmentTarget? at h
  split at h
  · rename_i hsign
    obtain ⟨token, hcurrent, htarget⟩ := Option.bind_eq_some_iff.mp h
    obtain ⟨column, rfl, hs⟩ := ParserState.exists_eq_before_of_current? hcurrent
    have hnext : s.advance.current? = some .assign := hsign
    obtain ⟨sign, hsign, hs₁⟩ := ParserState.exists_eq_before_of_current? hnext
    exact ⟨column, sign, htarget, hsign, ParserState.eq_before_cons hs hs₁⟩
  · cases h

/-- A statement that is read is derived by the tokens it took. -/
theorem sound_statement {s t : ParserState} {result : Statement Reference}
    (h : statement s = .ok result t) :
    ∃ read n, s = t.before read ∧ DerivesStatement result (read.map LocatedToken.token) n ∧
      n < maxDepth - s.nesting ∧ result.value.depth ≤ maxDepth := by
  cases htarget : assignmentTarget? s with
  | some target =>
    rw [statement_of_target htarget] at h
    obtain ⟨e, u, hexpression, hpure⟩ := exists_of_bind_eq_ok h
    cases hpure
    obtain ⟨column, sign, hcolumn, hsign, hs⟩ := exists_of_assignmentTarget? htarget
    obtain ⟨read, n, hread, hderives, hn, hdepth⟩ := sound_expression hexpression
    refine ⟨column :: sign :: read, n, ?_, ?_, hn, hdepth⟩
    · rw [hread, ← ParserState.before_append] at hs
      exact hs
    · rw [List.map_cons, List.map_cons, hsign]
      exact .assign hcolumn hderives
  | none =>
    cases hcurrent : s.current? with
    | none =>
      rw [statement_of_none hcurrent] at h
      cases h
    | some token =>
      by_cases hnew : token = .new
      · subst hnew
        rw [statement_of_new htarget hcurrent] at h
        obtain ⟨name, e, u, head, hhead, hs, hexpression, rfl⟩ := newColumn_sound hcurrent h
        obtain ⟨read, n, hread, hderives, hn, hdepth⟩ := sound_expression hexpression
        refine ⟨head ++ read, n, ?_, ?_, ?_, hdepth⟩
        · rw [hs, hread, ← ParserState.before_append]
        · rw [List.map_append, hhead]
          exact .newColumn hderives
        · rw [hs]
          exact hn
      · rw [statement_of_current? htarget hcurrent hnew] at h
        obtain ⟨e, u, hexpression, hbehind⟩ := exists_of_bind_eq_ok h
        rw [current?_bind] at hbehind
        split at hbehind
        · rw [fail_apply] at hbehind
          cases hbehind
        · cases hbehind
          obtain ⟨read, n, hread, hderives, hn, hdepth⟩ := sound_expression hexpression
          exact ⟨read, n, hread, .expression hderives, hn, hdepth⟩

/-- A statement that the remaining tokens derive is read to their end. -/
theorem complete_statement {t : ParserState} {read : List LocatedToken}
    {result : Statement Reference} {n : Nat}
    (hderives : DerivesStatement result (read.map LocatedToken.token) n)
    (hn : n < maxDepth - t.nesting) (hdepth : result.value.depth ≤ maxDepth)
    (hend : t.current? = none) : statement (t.before read) = .ok result t := by
  have hstops : StopsAt 0 t.current? := by
    rw [hend]
    exact stopsAt_none 0
  generalize htokens : read.map LocatedToken.token = tokens at hderives
  cases hderives with
  | expression h =>
    subst htokens
    have hread := complete_expression h hn hdepth hstops
    obtain ⟨token, rest, htokens, hstart⟩ := h.exists_startsOperand trivial
    obtain ⟨located, behind, rfl, rfl, -⟩ := List.map_eq_cons_iff.mp htokens
    -- No sign of assignment stands behind the first token.
    have htarget : assignmentTarget? (t.before (located :: behind)) = none := by
      refine if_neg fun hassign ↦ ?_
      cases behind with
      | nil =>
        have hcurrent : t.current? = some .assign := hassign
        rw [hend] at hcurrent
        cases hcurrent
      | cons sign behind =>
        have hsign : sign.token = .assign := Option.some.inj hassign
        exact h.not_mem (.inl rfl) (by simp [hsign])
    rw [statement_of_current? htarget rfl hstart.ne_sign.2.2, bind_ok hread, current?_bind, hend]
    rfl
  | @assign _ target e us _ hcolumn h =>
    obtain ⟨column, behind, rfl, rfl, hbehind⟩ := List.map_eq_cons_iff.mp htokens
    obtain ⟨sign, readValue, rfl, hsign, rfl⟩ := List.map_eq_cons_iff.mp hbehind
    have htarget : assignmentTarget? (t.before (column :: sign :: readValue)) = some target := by
      rw [assignmentTarget?, ParserState.following?_before_cons,
        ParserState.current?_before_cons, hsign, if_pos rfl]
      exact hcolumn
    rw [statement_of_target htarget]
    simp only [ParserState.advance_before_cons]
    rw [bind_ok (complete_expression h hn hdepth hstops)]
    rfl
  | @newColumn name e us _ h =>
    replace htokens : read.map LocatedToken.token = newColumnHead name ++ us := htokens
    obtain ⟨head, readValue, rfl, hhead, rfl⟩ := List.map_eq_append_iff.mp htokens
    have hcurrent : (t.before (head ++ readValue)).current? = some .new := by
      obtain ⟨new, behind, rfl, hnew, -⟩ := List.map_eq_cons_iff.mp hhead
      rw [List.cons_append, ParserState.current?_before_cons, hnew]
    have htarget : assignmentTarget? (t.before (head ++ readValue)) = none := by
      rw [assignmentTarget?, hcurrent]
      exact ite_self none
    rw [statement_of_new htarget hcurrent, ParserState.before_append, newColumn_before hhead,
      bind_ok (complete_expression h hn hdepth hstops)]
    rfl

/-- A whole statement is a statement behind which nothing is left. -/
theorem statement_of_wholeStatement {s t : ParserState} {result : Statement Reference}
    (h : wholeStatement s = .ok result t) : statement s = .ok result t ∧ t.current? = none := by
  rw [wholeStatement] at h
  obtain ⟨first, u, hstatement, hbehind⟩ := exists_of_bind_eq_ok h
  obtain ⟨⟨⟩, v, hend, hpure⟩ := exists_of_bind_eq_ok hbehind
  cases hpure
  obtain ⟨hcurrent, rfl⟩ := atEnd_eq_ok_iff.mp hend
  exact ⟨hstatement, hcurrent⟩

/-- A statement is accepted exactly if its tokens derive it within the limits. -/
theorem wholeStatement_eq_ok_iff {tokens : List LocatedToken} {finish : Nat}
    {result : Statement Reference} :
    wholeStatement.result (.start ⟨tokens, finish⟩) = .ok result ↔
      ∃ n, DerivesStatement result (tokens.map LocatedToken.token) n ∧ n < maxDepth ∧
        result.value.depth ≤ maxDepth := by
  rw [result_eq_ok_iff]
  constructor
  · rintro ⟨t, h⟩
    obtain ⟨hstatement, hcurrent⟩ := statement_of_wholeStatement h
    obtain ⟨read, n, hread, hderives, hn, hdepth⟩ := sound_statement hstatement
    obtain rfl := eq_read_of_current? hread hcurrent
    exact ⟨n, hderives, hn, hdepth⟩
  · rintro ⟨n, hderives, hn, hdepth⟩
    let t : ParserState := ⟨[], finish, 0⟩
    have hstart : ParserState.start ⟨tokens, finish⟩ = t.before tokens := by
      simp [ParserState.start, ParserState.before, t]
    have hread : statement (.start ⟨tokens, finish⟩) = .ok result t := by
      rw [hstart]
      exact complete_statement hderives hn hdepth rfl
    refine ⟨t, ?_⟩
    rw [wholeStatement, bind_ok hread, bind_ok (atEnd_ok rfl)]
    rfl

end Parse

/-- Reading accepts exactly the language of the grammar and builds its trees: a bare expression or a
statement is returned if and only if the tokens derive it, its expression has at most 200 levels,
and every primary lies inside fewer than 200 parentheses, argument lists and unary minus signs. -/
theorem accepts_iff_derives (tokens : List LocatedToken) (finish : Nat) :
    (∀ e, Parse.wholeExpression.result (.start ⟨tokens, finish⟩) = .ok e ↔
      ∃ nesting, Derives (.level .or e) (tokens.map LocatedToken.token) nesting ∧
        nesting < 200 ∧ e.depth ≤ 200) ∧
    ∀ statement, Parse.wholeStatement.result (.start ⟨tokens, finish⟩) = .ok statement ↔
      ∃ nesting, DerivesStatement statement (tokens.map LocatedToken.token) nesting ∧
        nesting < 200 ∧ statement.value.depth ≤ 200 :=
  ⟨fun _ ↦ Parse.wholeExpression_eq_ok_iff, fun _ ↦ Parse.wholeStatement_eq_ok_iff⟩

end ColumnFormula
