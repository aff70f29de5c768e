import ColumnFormula.Formula
import ColumnFormula.Proofs.Expr.Recognition
import ColumnFormula.Proofs.Number.Reading
import ColumnFormula.Proofs.Source.Neighbours

/-!
# Writing statements

The source text of a statement. A `Layout` makes the choices that the language leaves open: the
blanks before, between and behind the tokens, and the quotes of texts that allow both. Every
well-formed token has a spelling, and a statement that is written in any layout compiles to itself
(`compileStatement_body`): the lexer finds the tokens that were written, and the tokens derive the
statement with a nesting that the limit on levels bounds.
-/

set_option autoImplicit false
set_option relaxedAutoImplicit false

namespace ColumnFormula

/-- Blanks that stay within a statement: none of them is a newline. -/
abbrev Gap := { cs : List Char // Blank cs ∧ '\n' ∉ cs }

/-- The free choices in writing a statement. Blanks and quotes are chosen for each token by its
number. -/
structure Layout where
  leading : Gap
  between : Nat → Gap
  trailing : Gap
  singleQuotes : Nat → Bool

/-! ### Spelling tokens -/

/-- The quote for a text: one that it does not contain, and the preferred one if it contains
neither. -/
def quoteFor (single : Bool) (content : String) : Char :=
  if '"' ∈ content.toList then '\''
  else if '\'' ∈ content.toList then '"'
  else if single then '\'' else '"'

theorem quoteFor_eq (single : Bool) (content : String) :
    quoteFor single content = '"' ∨ quoteFor single content = '\'' := by
  unfold quoteFor
  split
  · exact .inr rfl
  · split
    · exact .inl rfl
    · cases single
      · exact .inl rfl
      · exact .inr rfl

theorem quoteFor_not_mem {content : String} (h : Quotable content) (single : Bool) :
    quoteFor single content ∉ content.toList := by
  unfold quoteFor
  split
  · rename_i hdouble
    exact h.elim (absurd hdouble) id
  · rename_i hdouble
    split
    · exact hdouble
    · rename_i hsingle
      cases single
      · exact hdouble
      · exact hsingle

/-- The spelling of a token. -/
def Token.spell (single : Bool) : Token → List Char
  | .number value => (formatNumber value).toList
  | .text content =>
    quoteFor single content :: (content.toList ++ [quoteFor single content])
  | .boolean value => (toString value).toList
  | .nil => "nil".toList
  | .identifier name => name.toList
  | .columnName name => '[' :: (name.toList ++ [']'])
  | .columnIndex index => '#' :: decimalDigits index
  | .new => "NEW".toList
  | .operator op => op.symbol.toList
  | .assign => "=".toList
  | .openParen => "(".toList
  | .closeParen => ")".toList
  | .comma => ",".toList

/-- A written number is a literal that denotes the number. -/
theorem spelledBy_formatNumber {value : Binary64} (h : value.IsLiteral) :
    (Token.number value).SpelledBy (formatNumber value).toList := by
  cases value with
  | nan => exact h.elim
  | infinity => exact h.elim
  | finite negative m e hstandard =>
    obtain rfl : negative = false := h
    obtain ⟨read, hread, hvalue⟩ := readPlainNumeral?_formatNumber hstandard
    obtain ⟨n, htext, -⟩ := exists_formatNumber_eq hstandard
    obtain ⟨c, rest, hplaces, hdigit, hrest⟩ := n.exists_positional_eq_cons
    have hliteral : ∀ d ∈ c :: rest, isLiteralChar d = true := by
      intro d hd
      rcases List.mem_cons.mp hd with rfl | hd
      · exact isLiteralChar_of_isDigit hdigit
      · rcases hrest d hd with hd | rfl
        · exact isLiteralChar_of_isDigit hd
        · rfl
    have hstart : startsNumber ([c] ++ rest) = true :=
      startsNumber_append (by simpa [startsNumber] using hdigit)
    rw [htext, String.toList_ofList, hplaces] at hread ⊢
    exact hvalue ▸ .number hliteral hstart hread

theorem symbol_mem_signs (op : BinaryOp) : (op.symbol.toList, .operator op) ∈ Token.signs := by
  cases op with
  | comparison op => cases op <;> decide
  | arithmetic op => cases op <;> decide
  | concat | and | or => decide

/-- Every well-formed token is spelled in one of its ways. -/
theorem Token.spelledBy_spell {token : Token} (h : token.WellFormed) (single : Bool) :
    token.SpelledBy (token.spell single) := by
  cases token with
  | number value => exact spelledBy_formatNumber h
  | text content => exact .text (quoteFor_eq single content) (quoteFor_not_mem h single)
  | boolean value => exact .boolean value
  | nil => exact .nil
  | identifier name => exact .identifier h
  | columnName name => exact .columnName h
  | columnIndex index =>
    have hvalue := ofDecimalDigits_decimalDigits index
    have hspelled : (Token.columnIndex (ofDecimalDigits (decimalDigits index))).SpelledBy
        ('#' :: decimalDigits index) :=
      .columnIndex Nat.toDigits_ne_nil (fun c hc ↦ isDigit_of_mem_decimalDigits hc)
        (hvalue.symm ▸ h)
    rwa [hvalue] at hspelled
  | new =>
    have hword : isNewWord "NEW".toList = true := by decide
    exact .new hword
  | operator op => exact .sign (symbol_mem_signs op)
  | assign =>
    have hsign : ("=".toList, Token.assign) ∈ Token.signs := by decide
    exact .sign hsign
  | openParen =>
    have hsign : ("(".toList, Token.openParen) ∈ Token.signs := by decide
    exact .sign hsign
  | closeParen =>
    have hsign : (")".toList, Token.closeParen) ∈ Token.signs := by decide
    exact .sign hsign
  | comma =>
    have hsign : (",".toList, Token.comma) ∈ Token.signs := by decide
    exact .sign hsign

/-! ### Writing tokens -/

namespace Layout

/-- The tokens from the given number on, with blanks between them. -/
def body (layout : Layout) (number : Nat) : List Token → List Char
  | [] => []
  | [token] => token.spell (layout.singleQuotes number)
  | token :: rest =>
    token.spell (layout.singleQuotes number) ++
      ((layout.between number).1 ++ layout.body (number + 1) rest)

/-- The text of a statement. -/
def write (layout : Layout) (statement : Statement Reference) : List Char :=
  layout.leading.1 ++ (layout.body 0 statement.tokens ++ layout.trailing.1)

theorem exists_body_cons (layout : Layout) (number : Nat) (token : Token) (rest : List Token) :
    ∃ following, layout.body number (token :: rest) =
      token.spell (layout.singleQuotes number) ++ following := by
  cases rest with
  | nil => exact ⟨[], (List.append_nil _).symm⟩
  | cons => exact ⟨_, rfl⟩

/-- The lexer finds the tokens that were written. -/
theorem exists_cut_body (layout : Layout) {tokens : List Token} (h : Writable tokens)
    (number offset : Nat) {gap : List Char} (hgap : Blank gap) :
    ∃ located finish, Cut offset (gap ++ layout.body number tokens) located finish ∧
      located.map LocatedToken.token = tokens := by
  induction tokens generalizing number offset gap with
  | nil =>
    rw [body, List.append_nil]
    exact ⟨[], _, .finish hgap, rfl⟩
  | cons token rest ih =>
    have hspelled := Token.spelledBy_spell (h.wellFormed token List.mem_cons_self)
      (layout.singleQuotes number)
    obtain ⟨c, tail, hcons, hblank, -⟩ := hspelled.exists_cons
    rw [hcons] at hspelled
    cases rest with
    | nil =>
      have hnew : token ≠ .new := fun hnew ↦ h.last_ne_new (by simp [hnew])
      have hend : token.EndsBefore [] := endsBefore_of_blank hnew nofun
      have hcut : Cut offset (gap ++ (c :: tail ++ [])) _ _ :=
        .token hgap hblank (readToken_of_spelledBy hspelled hend) (.finish nofun)
      rw [List.append_nil] at hcut
      rw [body, hcons]
      exact ⟨_, _, hcut, rfl⟩
    | cons next rest =>
      have hrest : Writable (next :: rest) :=
        ⟨fun t ht ↦ h.wellFormed t (List.mem_cons_of_mem token ht), h.touch.tail, h.last_ne_new⟩
      obtain ⟨located, finish, hcut, hlocated⟩ := ih hrest (number + 1)
        (offset + gap.length + (c :: tail).length) (layout.between number).2.1
      have hnext := Token.spelledBy_spell (hrest.wellFormed next List.mem_cons_self)
        (layout.singleQuotes (number + 1))
      obtain ⟨following, hbody⟩ := layout.exists_body_cons (number + 1) next rest
      have hend : token.EndsBefore ((layout.between number).1 ++
          layout.body (number + 1) (next :: rest)) := by
        rw [hbody]
        exact endsBefore_of_mayTouch h.touch.rel (layout.between number).2.1 hnext
      have hread := readToken_of_spelledBy hspelled hend
      refine ⟨⟨token, offset + gap.length⟩ :: located, finish, ?_, by simp [hlocated]⟩
      rw [body, hcons]
      · exact .token hgap hblank hread hcut
      · exact nofun

end Layout

/-- A written statement compiles to itself. -/
theorem compileStatement_body (layout : Layout) {statement : Statement Reference}
    (hwell : statement.WellFormed) (hdepth : statement.value.depth ≤ maxDepth) :
    compileStatement (String.ofList (layout.body 0 statement.tokens)) = .ok statement := by
  obtain ⟨located, finish, hcut, hlocated⟩ :=
    layout.exists_cut_body (writable_tokens hwell) 0 0 blank_nil
  rw [List.nil_append] at hcut
  obtain ⟨n, hn, hderives⟩ := derivesStatement_tokens hwell
  have hresult : Parse.wholeStatement.result (.start ⟨located, finish⟩) = .ok statement :=
    Parse.wholeStatement_eq_ok_iff.mpr ⟨n, hlocated ▸ hderives, by omega, hdepth⟩
  rw [compileStatement, compileWith, tokenize_of_cut hcut]
  dsimp only
  rw [hresult]
  rfl

end ColumnFormula
