import ColumnFormula.Proofs.Source.Layout
import ColumnFormula.Proofs.Source.Zones

/-!
# Writing scripts

A script is written as its statements with semicolons or newlines between them. No token of a
statement is cut: separators in quotes and brackets do not separate, and every token leaves the
zone plain again (`Zone.Closes`). So the splitter finds the statements that were written, trims the
blanks around them, and each compiles to itself: compiling undoes writing (`compileScript_write`).
-/

set_option autoImplicit false
set_option relaxedAutoImplicit false

namespace ColumnFormula

/-! ### Written statements stay together -/

theorem closes_gap (gap : Gap) : Zone.plain.Closes gap.1 := closes_of_blank gap.2.1 gap.2.2

namespace Layout

theorem closes_body (layout : Layout) {tokens : List Token}
    (h : ∀ token ∈ tokens, token.WellFormed) (number : Nat) :
    Zone.plain.Closes (layout.body number tokens) := by
  induction tokens generalizing number with
  | nil => rfl
  | cons token rest ih =>
    have hspelled := Token.spelledBy_spell (h token List.mem_cons_self)
      (layout.singleQuotes number)
    cases rest with
    | nil => exact hspelled.closes
    | cons next rest =>
      have hrest := ih (fun t ht ↦ h t (List.mem_cons_of_mem token ht)) (number + 1)
      exact hspelled.closes.append ((closes_gap (layout.between number)).append hrest)

theorem closes_write (layout : Layout) {statement : Statement Reference}
    (h : statement.WellFormed) : Zone.plain.Closes (layout.write statement) :=
  (closes_gap layout.leading).append
    ((layout.closes_body (writable_tokens h).wellFormed 0).append (closes_gap layout.trailing))

end Layout

/-! ### Blanks around a statement -/

/-- Trimming takes exactly the blanks off that surround a body without blanks at its ends. -/
theorem trim_append {front body back : List Char} (hfront : Blank front) (hback : Blank back)
    (hne : body ≠ []) (hhead : Boundary isBlank body) (hlast : Boundary isBlank body.reverse) :
    trim (front ++ (body ++ back)) = body := by
  have hstart : Boundary isBlank (body ++ back) := by
    intro c hc
    rw [List.head?_append_of_ne_nil _ hne] at hc
    exact hhead c hc
  have hreverse : ∀ c ∈ back.reverse, isBlank c = true :=
    fun c hc ↦ hback c (List.mem_reverse.mp hc)
  rw [trim, dropWhile_append_boundary hfront hstart, List.reverse_append,
    dropWhile_append_boundary hreverse hlast, List.reverse_reverse]

/-- No spelling ends with a blank. -/
theorem Token.SpelledBy.boundary_reverse {token : Token} {spelling : List Char}
    (h : token.SpelledBy spelling) : Boundary isBlank spelling.reverse := by
  have hliteral : ∀ {word : List Char}, (∀ c ∈ word, isLiteralChar c = true) →
      Boundary isBlank word.reverse := by
    intro word hword c hc
    have hmem := hword c (List.mem_reverse.mp (List.mem_of_head? hc))
    exact isBlank_of_not_isReserved (isReserved_of_isLiteralChar hmem)
  have hname : ∀ {word : List Char}, (∀ c ∈ word, isNameChar c = true) →
      Boundary isBlank word.reverse :=
    fun hword ↦ hliteral fun c hc ↦ isLiteralChar_of_isNameChar (hword c hc)
  have hconcat : ∀ {cs : List Char} {c : Char}, isBlank c = false →
      Boundary isBlank (cs ++ [c]).reverse := by
    intro cs c hc d hd
    rw [List.reverse_append] at hd
    obtain rfl := Option.some.inj hd
    exact hc
  cases h with
  | number hnumber => exact hliteral hnumber
  | text hquote hcontent =>
    rw [← List.cons_append]
    refine hconcat ?_
    rcases hquote with rfl | rfl <;> decide
  | boolean value => cases value <;> exact hname (List.all_eq_true.mp (by decide +kernel))
  | nil => exact hname (List.all_eq_true.mp (by decide +kernel))
  | identifier hword => exact hname hword.isNameChar
  | columnName hbracket =>
    rw [← List.cons_append]
    exact hconcat (by decide)
  | columnIndex hne hdigits =>
    intro c hc
    rw [List.reverse_cons, List.head?_append_of_ne_nil _ (by simpa using hne)] at hc
    exact hliteral (fun d hd ↦ isLiteralChar_of_isDigit (hdigits d hd)) c hc
  | new hword =>
    exact hname fun c hc ↦ isNameChar_of_isNameStart (isNameStart_of_isNewWord hword hc)
  | sign hsign =>
    have hsigns : ∀ entry ∈ Token.signs, entry.1.all (!isBlank ·) = true := by decide
    intro c hc
    have hmem := List.mem_reverse.mp (List.mem_of_head? hc)
    simpa using List.all_eq_true.mp (hsigns _ hsign) c hmem

namespace Layout

/-- A written body is not empty, and it has no blanks at its ends. -/
theorem body_ends (layout : Layout) {tokens : List Token}
    (h : ∀ token ∈ tokens, token.WellFormed) (hne : tokens ≠ []) (number : Nat) :
    layout.body number tokens ≠ [] ∧ Boundary isBlank (layout.body number tokens) ∧
      Boundary isBlank (layout.body number tokens).reverse := by
  induction tokens generalizing number with
  | nil => exact absurd rfl hne
  | cons token rest ih =>
    have hspelled := Token.spelledBy_spell (h token List.mem_cons_self)
      (layout.singleQuotes number)
    obtain ⟨c, tail, hcons, hblank, -⟩ := hspelled.exists_cons
    have hhead : ∀ following, Boundary isBlank
        (token.spell (layout.singleQuotes number) ++ following) := by
      intro following d hd
      rw [hcons] at hd
      obtain rfl := Option.some.inj hd
      exact hblank
    cases rest with
    | nil =>
      refine ⟨?_, ?_, hspelled.boundary_reverse⟩
      · rw [body, hcons]
        exact List.cons_ne_nil _ _
      · rw [body, ← List.append_nil (token.spell _)]
        exact hhead []
    | cons next rest =>
      obtain ⟨hnonempty, -, hlast⟩ := ih (fun t ht ↦ h t (List.mem_cons_of_mem token ht))
        (List.cons_ne_nil _ _) (number + 1)
      refine ⟨?_, hhead _, ?_⟩
      · rw [body, hcons]
        · exact List.cons_ne_nil _ _
        · exact List.cons_ne_nil _ _
      · intro d hd
        rw [body, ← List.append_assoc, List.reverse_append,
          List.head?_append_of_ne_nil _ (by simpa using hnonempty)] at hd
        · exact hlast d hd
        · exact List.cons_ne_nil _ _

/-- Trimming a written statement leaves its tokens with the blanks between them. -/
theorem trim_write (layout : Layout) {statement : Statement Reference}
    (h : statement.WellFormed) :
    trim (layout.write statement) = layout.body 0 statement.tokens ∧
      layout.body 0 statement.tokens ≠ [] := by
  obtain ⟨hne, hhead, hlast⟩ := layout.body_ends (writable_tokens h).wellFormed
    (tokens_ne_nil h) 0
  exact ⟨trim_append layout.leading.2.1 layout.trailing.2.1 hne hhead hlast, hne⟩

end Layout

/-! ### Scripts -/

/-- The free choices in writing a script: how each statement is written, and whether a newline or
a semicolon stands behind it. -/
structure ScriptLayout where
  statement : Nat → Layout
  newlineBehind : Nat → Bool

namespace ScriptLayout

/-- The separator behind a statement. -/
def separator (layout : ScriptLayout) (number : Nat) : Char :=
  if layout.newlineBehind number then '\n' else ';'

/-- The statements from the given number on, with separators between them. -/
def write (layout : ScriptLayout) (number : Nat) : List (Statement Reference) → List Char
  | [] => []
  | [statement] => (layout.statement number).write statement
  | statement :: rest =>
    (layout.statement number).write statement ++
      layout.separator number :: layout.write (number + 1) rest

theorem separates_separator (layout : ScriptLayout) (number : Nat) :
    Zone.plain.separates (layout.separator number) = true := by
  unfold separator
  split <;> rfl

/-- No blanks, texts in double quotes and semicolons between statements. -/
def compact : ScriptLayout where
  statement _ := ⟨⟨[], nofun, nofun⟩, fun _ ↦ ⟨[], nofun, nofun⟩, ⟨[], nofun, nofun⟩, fun _ ↦ false⟩
  newlineBehind _ := false

end ScriptLayout

/-- Compiles the pieces of a script, the first one having the given number. -/
def compilePieces (line : Nat) (pieces : List (List Char)) :
    Except CompileError (List (Statement Reference)) :=
  compileStatements line (((pieces.map trim).filter (!·.isEmpty)).map String.ofList)

theorem compileScript_eq_compilePieces (cs : List Char) :
    compileScript (String.ofList cs) = compilePieces 1 (cutPieces .plain cs) := by
  rw [compileScript, splitStatements, String.toList_ofList, compilePieces]

/-- A piece that is a written statement compiles to it. -/
theorem compilePieces_write (layout : Layout) {statement : Statement Reference}
    (hwell : statement.WellFormed) (hdepth : statement.value.depth ≤ maxDepth) (line : Nat)
    (pieces : List (List Char)) :
    compilePieces line (layout.write statement :: pieces) =
      (compilePieces (line + 1) pieces).map (statement :: ·) := by
  obtain ⟨htrim, hne⟩ := layout.trim_write hwell
  rw [compilePieces, List.map_cons, htrim, List.filter_cons_of_pos (by simpa using hne),
    List.map_cons, compileStatements, compileStatement_body layout hwell hdepth, compilePieces]

/-- Compiling undoes writing, also behind other statements. -/
theorem compilePieces_cutPieces_write (layout : ScriptLayout)
    {statements : List (Statement Reference)}
    (h : ∀ statement ∈ statements, statement.WellFormed ∧ statement.value.depth ≤ maxDepth)
    (number line : Nat) :
    compilePieces line (cutPieces .plain (layout.write number statements)) = .ok statements := by
  induction statements generalizing number line with
  | nil => rfl
  | cons statement rest ih =>
    obtain ⟨hwell, hdepth⟩ := h statement List.mem_cons_self
    have hcloses := (layout.statement number).closes_write hwell
    cases rest with
    | nil =>
      rw [ScriptLayout.write, cutPieces_of_keeps hcloses.keeps, compilePieces_write _ hwell hdepth]
      rfl
    | cons next rest =>
      rw [ScriptLayout.write, cutPieces_append hcloses (layout.separates_separator number),
        compilePieces_write _ hwell hdepth,
        ih (fun s hs ↦ h s (List.mem_cons_of_mem statement hs)) (number + 1) (line + 1)]
      · rfl
      · exact nofun

/-- Compiling undoes writing: every list of well-formed statements of at most 200 levels, written
with any blanks, any possible quotes and any separators, compiles to exactly this list. -/
theorem compileScript_write (layout : ScriptLayout) (statements : List (Statement Reference))
    (h : ∀ statement ∈ statements, statement.WellFormed ∧ statement.value.depth ≤ 200) :
    compileScript (String.ofList (layout.write 0 statements)) = .ok statements := by
  rw [compileScript_eq_compilePieces]
  exact compilePieces_cutPieces_write layout h 0 1

/-- Written without blanks: `A=(0-[a;b])&"it's";NEW("x;y")=CONCAT(1.5<C<=#3)`. -/
theorem compileScript_write_compact :
    let joined : Statement Reference := .assign (.identifier "A")
      (.binary .concat
        (.binary (.arithmetic .subtract) (.number (.zero false)) (.reference (.columnName "a;b")))
        (.text "it's"))
    let range : Statement Reference := .newColumn "x;y"
      (.call "CONCAT" [.chain
        [.number (.finite false 0x18000000000000 (-52) (by decide)), .reference (.identifier "C"),
          .reference (.columnIndex 3)]
        [.less, .lessEqual]])
    (∀ statement ∈ [joined, range], statement.WellFormed ∧ statement.value.depth ≤ 200) ∧
      compileScript (String.ofList (ScriptLayout.compact.write 0 [joined, range])) =
        .ok [joined, range] := by
  intro joined range
  have hA : IsName "A".toList :=
    ⟨⟨'A', [], rfl, by decide⟩, List.all_eq_true.mp (by decide), by decide⟩
  have hC : IsName "C".toList :=
    ⟨⟨'C', [], rfl, by decide⟩, List.all_eq_true.mp (by decide), by decide⟩
  have hcall : IsName "CONCAT".toList :=
    ⟨⟨'C', "ONCAT".toList, rfl, by decide⟩, List.all_eq_true.mp (by decide), by decide⟩
  have hbracket : ']' ∉ "a;b".toList := by decide
  have hindex : 3 < UInt64.size := by decide
  have hwell : ∀ statement ∈ [joined, range],
      statement.WellFormed ∧ statement.value.depth ≤ 200 := by
    intro statement hmem
    rw [Expr.depth_eq_height]
    rcases List.mem_cons.mp hmem with rfl | hmem
    · exact ⟨⟨hA, ⟨rfl, hbracket⟩, .inl (by decide)⟩, by decide⟩
    · obtain rfl := List.mem_singleton.mp hmem
      refine ⟨⟨.inl (by decide), hcall, by decide, ?_, trivial⟩, by decide⟩
      exact ⟨by decide, by decide, rfl, hC, hindex, trivial⟩
  exact ⟨hwell, compileScript_write ScriptLayout.compact [joined, range] hwell⟩

end ColumnFormula
