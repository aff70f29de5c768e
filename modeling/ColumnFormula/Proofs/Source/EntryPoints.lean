import ColumnFormula.Proofs.Expr.ReaderMoves
import ColumnFormula.Proofs.Expr.Recognition
import ColumnFormula.Proofs.Outcome
import ColumnFormula.Proofs.Source.Tokens

/-!
# Bare expressions and statements

A text can be compiled as a bare expression and as a statement, and each way looks at the first
tokens and at the end of the text by itself. The two agree. Where no statement of its own kind
begins, both read the same expression and then the same end, so they succeed together with the same
tree and fail together with the same error; only a sign of assignment behind the expression is
another fault for a statement than for a bare expression (`ParseFault.counterpart`,
`Parse.result_wholeStatement`). A statement that is no expression has a token that stops a bare
expression: the sign of assignment behind its column (`Parse.result_wholeExpression_of_target`), or
the word `NEW`. `entryPoints_agree` says all of this about texts.
-/

set_option autoImplicit false
set_option relaxedAutoImplicit false

namespace ColumnFormula

/-! ### Faults of one entry point and of the other -/

/-- The fault that the other entry point finds in the same place. They differ about a sign of
assignment behind an expression: a bare expression allows none there, and a statement allows one
only behind a column. -/
def ParseFault.counterpart : ParseFault → ParseFault
  | .assignmentNotAllowed => .invalidAssignmentTarget
  | .invalidAssignmentTarget => .assignmentNotAllowed
  | fault => fault

theorem ParseFault.counterpart_counterpart (fault : ParseFault) :
    fault.counterpart.counterpart = fault := by
  cases fault <;> rfl

theorem ParseFault.IsInner.counterpart {fault : ParseFault} (h : fault.IsInner) :
    fault.counterpart = fault := by
  cases fault <;> first | rfl | exact h.elim

def ParseError.counterpart (e : ParseError) : ParseError := ⟨e.fault.counterpart, e.position⟩

theorem ParseError.counterpart_of_fault {e : ParseError} (h : e.fault.counterpart = e.fault) :
    e.counterpart = e := by
  rw [counterpart, h]

theorem ParseError.counterpart_counterpart (e : ParseError) : e.counterpart.counterpart = e := by
  rw [counterpart, counterpart, ParseFault.counterpart_counterpart]

/-- A text that cannot be cut into tokens is the same to both entry points. -/
def FormulaError.counterpart : FormulaError → FormulaError
  | .lex e => .lex e
  | .parse e => .parse e.counterpart

theorem FormulaError.counterpart_counterpart (e : FormulaError) :
    e.counterpart.counterpart = e := by
  cases e with
  | lex e => rfl
  | parse e => rw [counterpart, counterpart, ParseError.counterpart_counterpart]

/-! ### Reading -/

/-- A statement other than a bare expression begins here: with the word `NEW`, or with a reference
directly before a sign of assignment. -/
def ParserState.opensStatement (s : ParserState) : Bool :=
  s.current? = some .new || (Parse.assignmentTarget? s).isSome

theorem ParserState.opensStatement_eq_false_iff {s : ParserState} :
    s.opensStatement = false ↔ s.current? ≠ some .new ∧ Parse.assignmentTarget? s = none := by
  simp [opensStatement]

namespace Parse

theorem result_of_ok {α : Type} {reader : Parse α} {s t : ParserState} {a : α}
    (h : reader s = .ok a t) : reader.result s = .ok a := by
  rw [result, h]

theorem result_of_error {α : Type} {reader : Parse α} {s t : ParserState} {e : ParseError}
    (h : reader s = .error e t) : reader.result s = .error e := by
  rw [result, h]

theorem counterpart_of_expression_eq_error {s t : ParserState} {e : ParseError}
    (h : expression s = .error e t) : e.counterpart = e :=
  ParseError.counterpart_of_fault (moves_expression.fault_of_eq_error h).counterpart

theorem counterpart_of_atEnd_eq_error {s t : ParserState} {e : ParseError}
    (h : atEnd s = .error e t) : e.counterpart = e :=
  have hmoves : Moves (fun fault ↦ fault.counterpart = fault) atEnd := moves_atEnd rfl fun _ ↦ rfl
  ParseError.counterpart_of_fault (hmoves.fault_of_eq_error h)

/-- Where no statement of its own kind begins, a statement is read as a bare expression is. -/
theorem result_wholeStatement {s : ParserState} (h : s.opensStatement = false) :
    wholeStatement.result s =
      ((wholeExpression.result s).map Statement.expression).mapError ParseError.counterpart := by
  obtain ⟨hnew, htarget⟩ := ParserState.opensStatement_eq_false_iff.mp h
  cases hcurrent : s.current? with
  | none =>
    rw [result_of_error (wholeExpression_of_none hcurrent), wholeStatement,
      result_of_error (bind_error (statement_of_none hcurrent) _)]
    rfl
  | some token =>
    have htoken : token ≠ .new := fun heq ↦ hnew (hcurrent.trans (congrArg some heq))
    have hwhole := wholeExpression_of_current? hcurrent htoken
    have hstatement := statement_of_current? htarget hcurrent htoken
    -- Both go on with the same expression, and differ only about a sign of assignment behind it.
    cases hread : expression s with
    | error e t =>
      rw [bind_error hread] at hwhole hstatement
      rw [result_of_error hwhole, wholeStatement, result_of_error (bind_error hstatement _)]
      exact congrArg Except.error (counterpart_of_expression_eq_error hread).symm
    | ok e t =>
      rw [bind_ok hread, current?_bind] at hwhole hstatement
      by_cases hassign : t.current? = some .assign
      · rw [if_pos hassign, fail_apply] at hwhole hstatement
        rw [result_of_error hwhole, wholeStatement, result_of_error (bind_error hstatement _)]
        rfl
      · rw [if_neg hassign] at hwhole hstatement
        have hbehind : wholeStatement s = (do
            atEnd
            pure (Statement.expression e)) t := bind_ok hstatement
        cases hend : atEnd t with
        | error e t =>
          rw [bind_error hend] at hwhole hbehind
          rw [result_of_error hwhole, result_of_error hbehind]
          exact congrArg Except.error (counterpart_of_atEnd_eq_error hend).symm
        | ok _ t =>
          rw [bind_ok hend, pure_apply] at hwhole hbehind
          rw [result_of_ok hwhole, result_of_ok hbehind]
          rfl

/-- A bare expression ends at the sign of an assignment. -/
theorem result_wholeExpression_of_target {column sign : LocatedToken} {rest : List LocatedToken}
    {finish : Nat} {target : Reference} (hcolumn : reference? column.token = some target)
    (hsign : sign.token = .assign) :
    wholeExpression.result (.start ⟨column :: sign :: rest, finish⟩) =
      .error ⟨.assignmentNotAllowed, sign.offset⟩ := by
  let t : ParserState := .start ⟨sign :: rest, finish⟩
  have hoperand : column.token.operand? = some (.reference target) ∧ column.token ≠ .new := by
    unfold reference? at hcolumn
    split at hcolumn <;> cases hcolumn <;> simp [Token.operand?, *]
  have hcurrent : t.current? = some .assign := congrArg some hsign
  have hstops : StopsAt 0 t.current? := by
    rw [hcurrent]
    exact stopsAt_assign 0
  have hread : expression (t.before [column]) = .ok (.reference target) t :=
    complete_expression (.or_of_primary (.single hoperand.1)) (show 0 < maxDepth by decide)
      (Token.depth_le_of_operand? hoperand.1) hstops
  have hwhole := wholeExpression_of_current? (s := t.before [column]) rfl hoperand.2
  rw [bind_ok hread, current?_bind, if_pos hcurrent, fail_apply] at hwhole
  exact result_of_error hwhole

theorem result_wholeExpression_of_new {new : LocatedToken} {rest : List LocatedToken}
    {finish : Nat} (hnew : new.token = .new) :
    wholeExpression.result (.start ⟨new :: rest, finish⟩) =
      .error ⟨.assignmentNotAllowed, new.offset⟩ := by
  have hcurrent : (ParserState.start ⟨new :: rest, finish⟩).current? = some .new :=
    congrArg some hnew
  exact result_of_error (wholeExpression_of_new hcurrent)

end Parse

/-! ### Texts -/

/-- The text begins with the word `NEW`, or with a reference directly before a sign of
assignment. -/
def opensStatement (text : String) : Bool :=
  match tokenize text with
  | .error _ => false
  | .ok list => (ParserState.start list).opensStatement

theorem compileWith_of_tokenize {α : Type} {text : String} {list : TokenList} (reader : Parse α)
    (h : tokenize text = .ok list) :
    compileWith reader text = (reader.result (.start list)).mapError .parse := by
  rw [compileWith, h]

theorem compileExpression_eq_ok_iff_compileStatement {text : String} {e : Expr Reference} :
    compileExpression text = .ok e ↔ compileStatement text = .ok (.expression e) := by
  rw [compileExpression, compileStatement]
  cases htext : tokenize text with
  | error e => simp [compileWith, htext]
  | ok list =>
    rw [compileWith_of_tokenize _ htext, compileWith_of_tokenize _ htext, mapError_eq_ok_iff,
      mapError_eq_ok_iff, Parse.wholeExpression_eq_ok_iff, Parse.wholeStatement_eq_ok_iff]
    refine exists_congr fun n ↦ and_congr_left fun _ ↦ ⟨.expression, ?_⟩
    rintro ⟨h⟩
    exact h

theorem exists_tokens_of_compileStatement {text : String} {statement : Statement Reference}
    (h : compileStatement text = .ok statement) :
    ∃ list n, tokenize text = .ok list ∧
      DerivesStatement statement (list.tokens.map LocatedToken.token) n := by
  cases htext : tokenize text with
  | error e => simp [compileStatement, compileWith, htext] at h
  | ok list =>
    rw [compileStatement, compileWith_of_tokenize _ htext, mapError_eq_ok_iff,
      Parse.wholeStatement_eq_ok_iff] at h
    obtain ⟨n, hderives, -⟩ := h
    exact ⟨list, n, rfl, hderives⟩

theorem compileExpression_of_assign {text : String} {target : Reference} {value : Expr Reference}
    (h : compileStatement text = .ok (.assign target value)) :
    ∃ column sign rest finish, tokenize text = .ok ⟨column :: sign :: rest, finish⟩ ∧
      Parse.reference? column.token = some target ∧ sign.token = .assign ∧
      compileExpression text = .error (.parse ⟨.assignmentNotAllowed, sign.offset⟩) := by
  obtain ⟨⟨tokens, finish⟩, n, htext, hderives⟩ := exists_tokens_of_compileStatement h
  generalize htokens : tokens.map LocatedToken.token = ts at hderives
  cases hderives with
  | assign htarget =>
    obtain ⟨column, behind, rfl, rfl, hbehind⟩ := List.map_eq_cons_iff.mp htokens
    obtain ⟨sign, rest, rfl, hsign, -⟩ := List.map_eq_cons_iff.mp hbehind
    refine ⟨column, sign, rest, finish, htext, htarget, hsign, ?_⟩
    rw [compileExpression, compileWith_of_tokenize _ htext,
      Parse.result_wholeExpression_of_target htarget hsign]
    rfl

theorem compileExpression_of_newColumn {text : String} {name : String} {value : Expr Reference}
    (h : compileStatement text = .ok (.newColumn name value)) :
    ∃ new rest finish, tokenize text = .ok ⟨new :: rest, finish⟩ ∧ new.token = .new ∧
      compileExpression text = .error (.parse ⟨.assignmentNotAllowed, new.offset⟩) := by
  obtain ⟨⟨tokens, finish⟩, n, htext, hderives⟩ := exists_tokens_of_compileStatement h
  generalize htokens : tokens.map LocatedToken.token = ts at hderives
  cases hderives with
  | newColumn =>
    obtain ⟨new, rest, rfl, hnew, -⟩ := List.map_eq_cons_iff.mp htokens
    refine ⟨new, rest, finish, htext, hnew, ?_⟩
    rw [compileExpression, compileWith_of_tokenize _ htext,
      Parse.result_wholeExpression_of_new hnew]
    rfl

/-- Where no statement of its own kind begins, compiling a statement is compiling an expression, up
to the fault of a sign of assignment. -/
theorem compileStatement_of_opensStatement {text : String} (h : opensStatement text = false) :
    compileStatement text =
      ((compileExpression text).map Statement.expression).mapError FormulaError.counterpart := by
  rw [compileStatement, compileExpression]
  cases htext : tokenize text with
  | error e =>
    rw [compileWith, compileWith, htext]
    rfl
  | ok list =>
    rw [opensStatement, htext] at h
    rw [compileWith_of_tokenize _ htext, compileWith_of_tokenize _ htext,
      Parse.result_wholeStatement h]
    cases Parse.wholeExpression.result (.start list) <;> rfl

/-- The two entry points agree on every text. A text compiles to an expression exactly if it
compiles to the statement of this expression. A text that compiles to an assignment is refused as an
expression at its sign of assignment, and one that compiles to a new column at the word `NEW`. A
text that begins neither with this word nor with a reference directly before a sign of assignment
fails in both ways or in none, with the same error in the same place, except that an assignment that
is not allowed in an expression is an invalid target in a statement. -/
theorem entryPoints_agree (text : String) :
    (∀ e, compileExpression text = .ok e ↔ compileStatement text = .ok (.expression e)) ∧
      (∀ target value, compileStatement text = .ok (.assign target value) →
        ∃ column sign rest finish, tokenize text = .ok ⟨column :: sign :: rest, finish⟩ ∧
          Parse.reference? column.token = some target ∧ sign.token = .assign ∧
          compileExpression text = .error (.parse ⟨.assignmentNotAllowed, sign.offset⟩)) ∧
      (∀ name value, compileStatement text = .ok (.newColumn name value) →
        ∃ new rest finish, tokenize text = .ok ⟨new :: rest, finish⟩ ∧ new.token = .new ∧
          compileExpression text = .error (.parse ⟨.assignmentNotAllowed, new.offset⟩)) ∧
      (opensStatement text = false → ∀ error, compileExpression text = .error error ↔
        compileStatement text = .error error.counterpart) := by
  refine ⟨fun e ↦ compileExpression_eq_ok_iff_compileStatement,
    fun _ _ ↦ compileExpression_of_assign, fun _ _ ↦ compileExpression_of_newColumn, ?_⟩
  intro hopens error
  rw [compileStatement_of_opensStatement hopens]
  cases compileExpression text with
  | ok e => constructor <;> intro h <;> cases h
  | error other =>
    constructor
    · intro h
      cases h
      rfl
    · intro h
      have hcounterpart : other.counterpart = error.counterpart := Except.error.inj h
      rw [← other.counterpart_counterpart, hcounterpart, error.counterpart_counterpart]

/-- An assignment, a new column, and a sign of assignment behind an expression in parentheses. -/
theorem entryPoints_agree_forms :
    (compileStatement "B = A" =
        .ok (.assign (.identifier "B") (.reference (.identifier "A"))) ∧
      ∃ column sign rest finish, tokenize "B = A" = .ok ⟨column :: sign :: rest, finish⟩ ∧
        Parse.reference? column.token = some (.identifier "B") ∧ sign.token = .assign ∧
        compileExpression "B = A" = .error (.parse ⟨.assignmentNotAllowed, sign.offset⟩)) ∧
    (compileStatement "NEW('x') = A" = .ok (.newColumn "x" (.reference (.identifier "A"))) ∧
      ∃ new rest finish, tokenize "NEW('x') = A" = .ok ⟨new :: rest, finish⟩ ∧
        new.token = .new ∧
        compileExpression "NEW('x') = A" = .error (.parse ⟨.assignmentNotAllowed, new.offset⟩)) ∧
    opensStatement "(A) = B" = false ∧
      compileStatement "(A) = B" = .error (.parse ⟨.invalidAssignmentTarget, 4⟩) := by
  have htokens : tokenize "B = A" =
      .ok ⟨[⟨.identifier "B", 0⟩, ⟨.assign, 2⟩, ⟨.identifier "A", 4⟩], 5⟩ := by decide +kernel
  have hassign : compileStatement "B = A" =
      .ok (.assign (.identifier "B") (.reference (.identifier "A"))) := by
    rw [compileStatement, compileWith_of_tokenize _ htokens]
    rfl
  have htokensNew : tokenize "NEW('x') = A" =
      .ok ⟨[⟨.new, 0⟩, ⟨.openParen, 3⟩, ⟨.text "x", 4⟩, ⟨.closeParen, 7⟩, ⟨.assign, 9⟩,
        ⟨.identifier "A", 11⟩], 12⟩ := by decide +kernel
  have hnew : compileStatement "NEW('x') = A" =
      .ok (.newColumn "x" (.reference (.identifier "A"))) := by
    rw [compileStatement, compileWith_of_tokenize _ htokensNew]
    rfl
  have htokensParens : tokenize "(A) = B" =
      .ok ⟨[⟨.openParen, 0⟩, ⟨.identifier "A", 1⟩, ⟨.closeParen, 2⟩, ⟨.assign, 4⟩,
        ⟨.identifier "B", 6⟩], 7⟩ := by decide +kernel
  have hopens : opensStatement "(A) = B" = false := by
    rw [opensStatement, htokensParens]
    rfl
  have hexpression : compileExpression "(A) = B" = .error (.parse ⟨.assignmentNotAllowed, 4⟩) := by
    rw [compileExpression, compileWith_of_tokenize _ htokensParens]
    rfl
  exact ⟨⟨hassign, (entryPoints_agree _).2.1 _ _ hassign⟩,
    ⟨hnew, (entryPoints_agree _).2.2.1 _ _ hnew⟩,
    hopens, ((entryPoints_agree _).2.2.2 hopens _).mp hexpression⟩

end ColumnFormula
