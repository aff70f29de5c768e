import ColumnFormula.Proofs.Source.Separation
import ColumnFormula.Proofs.Table.Atomicity

/-!
# New columns by formula and by script

A column can be added with a formula, or with a script of the one statement `NEW('name') = formula`.
Behind the head of the statement the lexer reads the formula, so the script compiles exactly if the
formula is an expression, and then to the statement that adding the column runs
(`compileScript_newStatement_eq_ok_iff`). Equal statements have equal plans, hence both calls leave
the same table or fail at the same row (`addCalculatedColumn_iff_executeScript`).
-/

set_option autoImplicit false
set_option relaxedAutoImplicit false

namespace ColumnFormula

/-! ### The statement of a new column -/

/-- The script that appends a column with the value of a formula. -/
def newStatement (name formula : String) : String := "NEW('" ++ name ++ "') = " ++ formula

theorem toList_newStatement (name formula : String) :
    (newStatement name formula).toList =
      "NEW".toList ++ ("(".toList ++ ('\'' :: (name.toList ++ ['\'']) ++
        (")".toList ++ ([' '] ++ ("=".toList ++ ([' '] ++ formula.toList)))))) := by
  simp [newStatement]

/-- The head of the statement is made of five spellings. -/
theorem newColumnHead_spelledBy {name : String} (hname : '\'' ∉ name.toList) :
    Token.new.SpelledBy "NEW".toList ∧ Token.openParen.SpelledBy "(".toList ∧
      (Token.text name).SpelledBy ('\'' :: (name.toList ++ ['\''])) ∧
      Token.closeParen.SpelledBy ")".toList ∧ Token.assign.SpelledBy "=".toList := by
  have hsigns : ("(".toList, Token.openParen) ∈ Token.signs ∧
      (")".toList, Token.closeParen) ∈ Token.signs ∧ ("=".toList, Token.assign) ∈ Token.signs := by
    decide
  obtain ⟨hopen, hclose, hassign⟩ := hsigns
  exact ⟨.new (by decide), .sign hopen, .text (.inr rfl) hname, .sign hclose, .sign hassign⟩

/-- Spellings leave all quotes closed, so the statement stays together if its formula does. -/
theorem keeps_newStatement {name formula : String} (hname : '\'' ∉ name.toList)
    (hformula : SeparatorsEnclosed formula) :
    Zone.plain.Keeps (newStatement name formula).toList := by
  obtain ⟨hnew, hopen, htext, hclose, hassign⟩ := newColumnHead_spelledBy hname
  have hspace : Zone.plain.Closes [' '] := closes_of_blank (by decide) (by decide)
  have hvalue := separatorsEnclosed_iff_keeps.mp hformula
  rw [toList_newStatement]
  exact hnew.closes.append_keeps <| hopen.closes.append_keeps <| htext.closes.append_keeps <|
    hclose.closes.append_keeps <| hspace.append_keeps <| hassign.closes.append_keeps <|
    hspace.append_keeps hvalue

/-- Behind the tokens of the head the script has those of its formula. -/
theorem tokens?_newStatement {name : String} (hname : '\'' ∉ name.toList) (formula : String) :
    tokens? (newStatement name formula).toList =
      (tokens? formula.toList).map (Parse.newColumnHead name ++ ·) := by
  have hspace : Blank [' '] := by decide
  obtain ⟨hword, hleft, htext, hright, hsign⟩ := newColumnHead_spelledBy hname
  have hparen : ∀ rest, opensParen ('(' :: rest) = true := fun rest ↦
    opensParen_append (c := '(') blank_nil (by decide)
  have hnew : ∀ rest, tokens? ("NEW".toList ++ ("(".toList ++ rest)) =
      (tokens? ("(".toList ++ rest)).map (.new :: ·) := fun rest ↦
    tokens?_spelling blank_nil hword ⟨boundary_cons (c := '(') (by decide) rest, hparen rest⟩
  have hopen : ∀ rest, tokens? ("(".toList ++ rest) = (tokens? rest).map (.openParen :: ·) :=
    fun rest ↦ tokens?_spelling blank_nil hleft trivial
  have hquoted : ∀ rest, tokens? ('\'' :: (name.toList ++ ['\'']) ++ rest) =
      (tokens? rest).map (.text name :: ·) :=
    fun rest ↦ tokens?_spelling blank_nil htext trivial
  have hclose : ∀ rest, tokens? (")".toList ++ rest) = (tokens? rest).map (.closeParen :: ·) :=
    fun rest ↦ tokens?_spelling blank_nil hright trivial
  have hassign : ∀ rest, tokens? ([' '] ++ ("=".toList ++ ([' '] ++ rest))) =
      (tokens? ([' '] ++ rest)).map (.assign :: ·) :=
    fun rest ↦ tokens?_spelling hspace hsign (boundary_cons (by decide) rest)
  rw [toList_newStatement, hnew, hopen, hquoted, hclose, hassign, tokens?_blank_append hspace]
  simp only [Option.map_map, Function.comp_def, Parse.newColumnHead, List.cons_append,
    List.nil_append]

/-- What the tokens of the head and further tokens derive is a new column. -/
theorem derivesStatement_newColumnHead_iff {name : String} {tokens : List Token}
    {statement : Statement Reference} {n : Nat} :
    DerivesStatement statement (Parse.newColumnHead name ++ tokens) n ↔
      ∃ e, Derives (.level .or e) tokens n ∧ statement = .newColumn name e := by
  constructor
  · intro h
    generalize hhead : Parse.newColumnHead name ++ tokens = all at h
    cases h with
    | expression hderives =>
      have hmem : Token.new ∈ all := hhead ▸ List.mem_cons_self
      exact absurd hmem (hderives.not_mem (.inr rfl))
    | assign htarget hderives => cases hhead
    | newColumn hderives =>
      cases hhead
      exact ⟨_, hderives, rfl⟩
  · rintro ⟨e, hderives, rfl⟩
    exact .newColumn hderives

/-- The statement compiles if its formula is an expression. -/
theorem compileStatement_newStatement_eq_ok_iff {name : String} (hname : '\'' ∉ name.toList)
    {formula : String} {statement : Statement Reference} :
    compileStatement (newStatement name formula) = .ok statement ↔
      ∃ e, compileExpression formula = .ok e ∧ statement = .newColumn name e := by
  rw [← String.ofList_toList (s := newStatement name formula), compileStatement_eq_ok_iff,
    tokens?_newStatement hname]
  rw [← String.ofList_toList (s := formula)]
  simp only [compileExpression_eq_ok_iff, Option.map_eq_some_iff]
  constructor
  · rintro ⟨_, n, ⟨tokens, htokens, rfl⟩, hderives, hn, hdepth⟩
    obtain ⟨e, hvalue, rfl⟩ := derivesStatement_newColumnHead_iff.mp hderives
    exact ⟨e, ⟨tokens, n, by simpa using htokens, hvalue, hn, hdepth⟩, rfl⟩
  · rintro ⟨e, ⟨tokens, n, htokens, hderives, hn, hdepth⟩, rfl⟩
    exact ⟨_, n, ⟨tokens, by simpa using htokens, rfl⟩,
      derivesStatement_newColumnHead_iff.mpr ⟨e, hderives, rfl⟩, hn, hdepth⟩

/-- The script is one statement, so it compiles as this does. -/
theorem compileScript_newStatement_eq_ok_iff {name formula : String}
    (hname : '\'' ∉ name.toList) (hformula : SeparatorsEnclosed formula)
    {statements : List (Statement Reference)} :
    compileScript (newStatement name formula) = .ok statements ↔
      ∃ e, compileExpression formula = .ok e ∧ [.newColumn name e] = statements := by
  have hsplit : splitStatements (newStatement name formula) =
      [trimText (newStatement name formula)] := by
    have hblank : ¬Blank (newStatement name formula).toList := by
      intro hblank
      have hN := hblank 'N' (by simp [toList_newStatement])
      exact absurd hN (by decide)
    rw [← String.ofList_toList (s := newStatement name formula), splitStatements_eq,
      statementPieces, cutPieces_of_keeps (keeps_newStatement hname hformula)]
    simp [trim_eq_nil_iff, hblank, trimText]
  rw [compileScript, hsplit, compileStatements_eq_ok_iff, List.forall₂_cons_left_iff]
  simp only [compileStatement_trimText_eq_ok_iff, compileStatement_newStatement_eq_ok_iff hname,
    List.forall₂_nil_left_iff]
  constructor
  · rintro ⟨_, _, ⟨e, he, rfl⟩, rfl, rfl⟩
    exact ⟨e, he, rfl⟩
  · rintro ⟨e, he, rfl⟩
    exact ⟨_, _, ⟨e, he, rfl⟩, rfl, rfl⟩

/-! ### Both calls -/

namespace TableCall

variable {name formula : String} {table after : Table} {options : EvalOptions}

/-- As a call, adding a column forgets the position of the column. -/
theorem run_addColumn :
    (addColumn name formula).run options table =
      match TableEdit.addCalculatedColumn name formula options table with
      | .ok _ current => .ok () current
      | .error error current => .error error current := by
  rw [run]
  generalize TableEdit.addCalculatedColumn name formula options = edit
  show EStateM.bind edit _ table = _
  rw [EStateM.bind]
  cases edit table <;> rfl

theorem run_addColumn_eq_ok_iff :
    (addColumn name formula).run options table = .ok () after ↔
      ∃ index, TableEdit.addCalculatedColumn name formula options table = .ok index after := by
  rw [run_addColumn]
  cases TableEdit.addCalculatedColumn name formula options table <;> simp

theorem run_addColumn_eq_error_iff {error : TableError} :
    (addColumn name formula).run options table = .error error after ↔
      TableEdit.addCalculatedColumn name formula options table = .error error after := by
  rw [run_addColumn]
  cases TableEdit.addCalculatedColumn name formula options table <;> simp

variable (hname : '\'' ∉ name.toList) (hformula : SeparatorsEnclosed formula)

include hname hformula

/-- Both calls have the same plan, if any. -/
theorem plan_newStatement_eq_ok_iff {result : Plan} :
    (runScript (newStatement name formula)).plan table = .ok result ↔
      (addColumn name formula).plan table = .ok result := by
  rw [plan_eq_ok_iff, plan_eq_ok_iff]
  simp only [statements, mapError_eq_ok_iff, map_eq_ok_iff,
    compileScript_newStatement_eq_ok_iff hname hformula]

theorem run_newStatement_eq_ok_iff :
    (runScript (newStatement name formula)).run options table = .ok () after ↔
      (addColumn name formula).run options table = .ok () after := by
  simp only [run_eq_ok_iff, plan_newStatement_eq_ok_iff hname hformula]

/-- A failure at a row is no failure of the plan, so it comes from the same evaluation. -/
theorem run_newStatement_eq_row_iff {row : Nat} {error : EvalError} :
    (runScript (newStatement name formula)).run options table = .error (.row row error) after ↔
      (addColumn name formula).run options table = .error (.row row error) after := by
  have hplan : ∀ call : TableCall, call.plan table ≠ .error (.row row error) := by
    intro call h
    obtain ⟨_, h⟩ | ⟨_, h⟩ | ⟨_, h⟩ := error_of_plan h <;> cases h
  simp only [run_eq_error_iff, hplan, false_or, plan_newStatement_eq_ok_iff hname hformula]

end TableCall

/-- Adding a calculated column and running its statement as a script succeed on the same tables and
leave the same table, and they fail at the same row with the same error. -/
theorem addCalculatedColumn_iff_executeScript (table : Table) (name formula : String)
    (options : EvalOptions) (hname : '\'' ∉ name.toList) (hformula : SeparatorsEnclosed formula) :
    let script := "NEW('" ++ name ++ "') = " ++ formula
    (∀ after, (∃ index, TableEdit.addCalculatedColumn name formula options table =
        .ok index after) ↔
      TableEdit.executeScript script options table = .ok () after) ∧
    (∀ row error after, TableEdit.addCalculatedColumn name formula options table =
        .error (.row row error) after ↔
      TableEdit.executeScript script options table = .error (.row row error) after) := by
  refine ⟨fun after ↦ ?_, fun row error after ↦ ?_⟩
  · rw [← TableCall.run_addColumn_eq_ok_iff]
    exact (TableCall.run_newStatement_eq_ok_iff hname hformula).symm
  · rw [← TableCall.run_addColumn_eq_error_iff]
    exact (TableCall.run_newStatement_eq_row_iff hname hformula).symm

/-- A name with a separator, and a formula with separators in both kinds of literals. -/
theorem addCalculatedColumn_iff_executeScript_literals :
    let table : Table := ⟨[⟨"a;b", [.text "x", .nil]⟩, ⟨"", [.number (.ofNat 1)]⟩]⟩
    let formula := "[a;b] & ';\n' & B"
    '\'' ∉ "sum;\"".toList ∧ SeparatorsEnclosed formula ∧
      ∀ after, (∃ index, TableEdit.addCalculatedColumn "sum;\"" formula .standard table =
          .ok index after) ↔
        TableEdit.executeScript ("NEW('" ++ "sum;\"" ++ "') = " ++ formula) .standard table =
          .ok () after := by
  intro table formula
  have hname : '\'' ∉ "sum;\"".toList := by decide
  have hformula : SeparatorsEnclosed formula :=
    separatorsEnclosed_of_newlinesEnclosed (by decide +kernel)
  have hcalls := addCalculatedColumn_iff_executeScript table "sum;\"" formula .standard hname
    hformula
  exact ⟨hname, hformula, hcalls.1⟩

end ColumnFormula
