import ColumnFormula.Proofs.Source.Padding
import ColumnFormula.Proofs.Value.Equality

/-!
# Literals and cells of the same characters

A number is written in three ways: as a literal in a formula, as a cell that holds a text, and as
the text form that is given out. All of them denote the same number (`Value.equal_spelling`). The
lexer and the cells have a reader of numerals each, and the one of the lexer is the narrower one: it
takes no sign and no exponent, and wants a digit behind a point. Whatever it takes the other one
takes as well, as the same numeral (`readNumeral?_of_readPlainNumeral?`). Nothing of a literal is
blank, so the blanks around the characters of a cell are those that trimming takes off.
-/

set_option autoImplicit false
set_option relaxedAutoImplicit false

namespace ColumnFormula

/-- A plain numeral is read as the same numeral where signs and exponents are allowed. -/
theorem readNumeral?_of_readPlainNumeral? {cs : List Char} {n : Numeral}
    (h : readPlainNumeral? cs = some n) : readNumeral? cs = some (false, n) := by
  obtain ⟨whole, fraction, rfl, rfl, hwhole, hfraction, hne⟩ :=
    Numeral.exists_written_of_readPlainNumeral? h
  exact Numeral.readNumeral?_written hwhole hne hfraction false

/-- The characters of a literal, with blanks around them, are a numeric text of its number. -/
theorem numericText?_of_spelledBy {x : Binary64} {literal : List Char}
    (h : (Token.number x).SpelledBy literal) {front back : List Char} (hfront : Blank front)
    (hback : Blank back) : numericText? (String.ofList (front ++ (literal ++ back))) = some x := by
  cases h with
  | @number _ numeral hliteral hstart hread =>
    have hblank : ∀ c ∈ literal, isBlank c = false :=
      fun c hc ↦ isBlank_of_not_isReserved (isReserved_of_isLiteralChar (hliteral c hc))
    rw [numericText?, String.toList_ofList, trim_blank_append hfront, trim_append_blank hback,
      trim_eq_self hblank, readNumeral?_of_readPlainNumeral? hread, Option.map_some]
  | sign hsign => simp [Token.signs] at hsign

/-- A text of which the lexer makes one number is a literal with blanks around it. -/
theorem exists_literal_of_tokenize {s : String} {x : Binary64} {offset finish : Nat}
    (h : tokenize s = .ok ⟨[⟨.number x, offset⟩], finish⟩) :
    ∃ front literal back, s.toList = front ++ (literal ++ back) ∧ Blank front ∧ Blank back ∧
      (Token.number x).SpelledBy literal := by
  have hcut := TextCursor.cut_of_tokens h
  generalize s.toList = cs at hcut
  cases hcut with
  | @token _ _ gap tail back c _ _ hgap hc hread hrest =>
    have hspelled := spelledBy_of_readToken hread
    cases hrest with
    | finish hback => exact ⟨gap, c :: tail, back, rfl, hgap, hback, hspelled⟩

/-- As a formula such a text is the literal. -/
theorem compileExpression_of_tokenize {s : String} {x : Binary64} {offset finish : Nat}
    (h : tokenize s = .ok ⟨[⟨.number x, offset⟩], finish⟩) :
    compileExpression s = .ok (.number x) := by
  have htokens : tokens? s.toList = some [.number x] := tokens?_eq_some_iff.mpr ⟨_, h, rfl⟩
  have hoperand : (Token.number x).operand? = some (.number x) := rfl
  have hderives : Derives (.level .or (.number x)) [.number x] 0 :=
    (Derives.single hoperand).or_of_primary
  have hdepth : (Expr.number x : Expr Reference).depth ≤ maxDepth :=
    Token.depth_le_of_operand? hoperand
  rw [← String.ofList_toList (s := s)]
  exact compileExpression_eq_ok_iff.mpr ⟨_, 0, htokens, hderives, by decide, hdepth⟩

/-- As the text of a cell, with blanks around it, it has the number of the literal. -/
theorem numericText?_of_tokenize {s : String} {x : Binary64} {offset finish : Nat}
    (h : tokenize s = .ok ⟨[⟨.number x, offset⟩], finish⟩) {front back : String}
    (hfront : Blank front.toList) (hback : Blank back.toList) :
    numericText? (front ++ s ++ back) = some x := by
  obtain ⟨before, literal, behind, hs, hbefore, hbehind, hspelled⟩ := exists_literal_of_tokenize h
  have htext := numericText?_of_spelledBy hspelled (hfront.append hbefore) (hbehind.append hback)
  have hsame : String.ofList (front.toList ++ before ++ (literal ++ (behind ++ back.toList))) =
      front ++ s ++ back := by
    rw [← String.ofList_toList (s := front ++ s ++ back), String.toList_append,
      String.toList_append, hs]
    simp only [List.append_assoc]
  rwa [hsame] at htext

/-! ### Equality with the number -/

namespace Value

theorem number_equal_text {x y : Binary64} {s : String} (h : numericText? s = some y) :
    (Value.number x).equal (.text s) = x.numEq y := by
  have hnumber : (Value.number x).asNumber? = some x := rfl
  have htext : (Value.text s).asNumber? = some y := h
  rw [equal_of_ne_nil (by simp) (by simp), hnumber, htext]

/-- A number, its text form and its literals denote one number. A finite number equals its text form
in both orders. A text of which the lexer makes one number and nothing else is that number as a
formula; and a cell that holds the text, with any blanks around it, has this number as its numeric
view, and equals the number in both orders. -/
theorem equal_spelling :
    (∀ x : Binary64, x.isFinite = true →
      (Value.number x).equal (.text (formatNumber x)) = true ∧
        (Value.text (formatNumber x)).equal (.number x) = true) ∧
    ∀ (s : String) (x : Binary64) (offset finish : Nat),
      tokenize s = .ok ⟨[⟨.number x, offset⟩], finish⟩ →
      compileExpression s = .ok (.number x) ∧
        ∀ front back : String, Blank front.toList → Blank back.toList →
          (Value.text (front ++ s ++ back)).asNumber? = some x ∧
            (Value.number x).equal (.text (front ++ s ++ back)) = true ∧
            (Value.text (front ++ s ++ back)).equal (.number x) = true := by
  refine ⟨fun x hx ↦ ?_, fun s x offset finish h ↦ ⟨compileExpression_of_tokenize h,
    fun front back hfront hback ↦ ?_⟩⟩
  · have hequal : (Value.number x).equal (.text (formatNumber x)) = true := by
      have hzero := (Binary64.isFinite_withoutNegativeZero x).trans hx
      rw [number_equal_text (numericText?_formatNumber hx), Binary64.numEq_finite hx hzero,
        Binary64.toRat_withoutNegativeZero]
    exact ⟨hequal, by rwa [equal_comm]⟩
  · have hnumber := numericText?_of_tokenize h hfront hback
    have hequal : (Value.number x).equal (.text (front ++ s ++ back)) = true := by
      rw [number_equal_text hnumber, Binary64.numEq_iff (ne_nan_of_numericText? hnumber)]
    exact ⟨hnumber, hequal, by rwa [equal_comm]⟩

/-- A text with blanks of its own, and a cell with more of them around it. -/
theorem equal_spelling_padded :
    tokenize " 0.10\t" = .ok ⟨[⟨.number (.ofDecimal false 1 (-1)), 1⟩], 6⟩ ∧
      (Value.text ("\n" ++ " 0.10\t" ++ "\u00a0")).equal
        (.number (.ofDecimal false 1 (-1))) = true ∧
      (Value.number (.ofDecimal false 1 (-1))).equal
        (.text (formatNumber (.ofDecimal false 1 (-1)))) = true := by
  have htokens : tokenize " 0.10\t" = .ok ⟨[⟨.number (.ofDecimal false 1 (-1)), 1⟩], 6⟩ := by
    decide +kernel
  have hfinite : (Binary64.ofDecimal false 1 (-1)).isFinite = true := by decide +kernel
  have hfront : Blank "\n".toList := List.all_eq_true.mp (by decide)
  have hback : Blank "\u00a0".toList := List.all_eq_true.mp (by decide)
  obtain ⟨-, hcell⟩ := equal_spelling.2 _ _ _ _ htokens
  exact ⟨htokens, (hcell "\n" "\u00a0" hfront hback).2.2, (equal_spelling.1 _ hfinite).1⟩

end Value

end ColumnFormula
