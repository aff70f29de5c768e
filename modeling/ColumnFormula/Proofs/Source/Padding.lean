import ColumnFormula.Formula
import ColumnFormula.Proofs.Expr.Recognition
import ColumnFormula.Proofs.Source.Neighbours
import ColumnFormula.Proofs.Token.Reading
import Mathlib.Data.List.Find

/-!
# Blanks around a text

The tokens of a text, offsets apart (`tokens?`), depend neither on where the text stands nor on the
blanks in front of it and behind it: no reader of a single token takes notice of blanks that are
appended to the text (`readToken_append_blank`). A text compiles to what its tokens derive, so it
compiles to a statement exactly if the trimmed text does (`compileStatement_trim_eq_ok_iff`).
-/

set_option autoImplicit false
set_option relaxedAutoImplicit false

namespace ColumnFormula

/-! ### Reading one token before blanks -/

theorem Blank.append {front back : List Char} (hfront : Blank front) (hback : Blank back) :
    Blank (front ++ back) := by
  intro c hc
  rcases List.mem_append.mp hc with hc | hc
  · exact hfront c hc
  · exact hback c hc

section Runs

variable {p : Char → Bool} {back : List Char} (hback : ∀ c ∈ back, p c = false)

include hback

theorem takeWhile_append_of_forall (cs : List Char) :
    (cs ++ back).takeWhile p = cs.takeWhile p := by
  induction cs with
  | nil =>
    cases back with
    | nil => rfl
    | cons c back => exact List.takeWhile_cons_of_neg (by simp [hback c List.mem_cons_self])
  | cons c cs ih => rw [List.cons_append, List.takeWhile_cons, List.takeWhile_cons, ih]

theorem dropWhile_append_of_forall (cs : List Char) :
    (cs ++ back).dropWhile p = cs.dropWhile p ++ back := by
  induction cs with
  | nil =>
    cases back with
    | nil => rfl
    | cons c back => exact List.dropWhile_cons_of_neg (by simp [hback c List.mem_cons_self])
  | cons c cs ih =>
    rw [List.cons_append, List.dropWhile_cons, List.dropWhile_cons, ih]
    split <;> rfl

end Runs

section AppendBlank

variable {back : List Char} (hback : Blank back)

include hback

theorem takeWhile_isLiteralChar_append (cs : List Char) :
    (cs ++ back).takeWhile isLiteralChar = cs.takeWhile isLiteralChar :=
  takeWhile_append_of_forall (fun c hc ↦ isLiteralChar_of_isBlank (hback c hc)) cs

/-- A word without blanks that a padded text begins with lies within the text. -/
theorem isPrefixOf_append_blank {word : List Char} (hword : ∀ c ∈ word, isBlank c = false)
    (cs : List Char) : word.isPrefixOf (cs ++ back) = word.isPrefixOf cs := by
  induction cs generalizing word with
  | nil =>
    cases word with
    | nil => rfl
    | cons c word =>
      cases back with
      | nil => rfl
      | cons d back =>
        have hne := beq_of_isBlank (hword c List.mem_cons_self) (hback d List.mem_cons_self)
        simp [List.isPrefixOf, hne]
  | cons d cs ih =>
    cases word with
    | nil => rfl
    | cons c word =>
      rw [List.cons_append, List.isPrefixOf, List.isPrefixOf,
        ih fun e he ↦ hword e (List.mem_cons_of_mem c he)]

theorem readSign?_append_blank (cs : List Char) : readSign? (cs ++ back) = readSign? cs := by
  have hsigns : ∀ entry ∈ Token.signs, entry.1.all (!isBlank ·) = true := by decide
  refine List.find?_congr fun entry hentry ↦ isPrefixOf_append_blank hback (fun c hc ↦ ?_) cs
  simpa using List.all_eq_true.mp (hsigns entry hentry) c hc

theorem readDelimited_append_blank {close : Char} {token : String → Token} {fault : LexFault}
    {cs : List Char} {result : Token} {length : Nat} (hclose : isBlank close = false) :
    readDelimited close token fault (cs ++ back) = ⟨.ok result, length⟩ ↔
      readDelimited close token fault cs = ⟨.ok result, length⟩ := by
  by_cases hmem : close ∈ cs
  · obtain ⟨content, after, rfl, hcontent⟩ := List.eq_append_cons_of_mem hmem
    rw [List.append_assoc, List.cons_append, ← String.toList_ofList (l := content)] at *
    rw [readDelimited_append hcontent, readDelimited_append hcontent]
  · have hpadded : close ∉ cs ++ back := by
      intro h
      rcases List.mem_append.mp h with h | h
      · exact hmem h
      · have hblank := hback close h
        rw [hclose] at hblank
        cases hblank
    rw [readDelimited_of_not_mem hmem, readDelimited_of_not_mem hpadded]
    constructor <;> nofun

theorem readColumnIndex_append_blank (cs : List Char) :
    readColumnIndex (cs ++ back) = readColumnIndex cs := by
  rw [readColumnIndex, takeWhile_isLiteralChar_append hback, readColumnIndex]

theorem startsNumber_append_blank (cs : List Char) :
    startsNumber (cs ++ back) = startsNumber cs := by
  rw [← startsNumber_takeWhile, takeWhile_isLiteralChar_append hback, startsNumber_takeWhile]

theorem readNumber_append_blank (cs : List Char) : readNumber (cs ++ back) = readNumber cs := by
  rw [readNumber, takeWhile_isLiteralChar_append hback, readNumber]

theorem opensParen_append_blank (cs : List Char) : opensParen (cs ++ back) = opensParen cs := by
  obtain ⟨gap, body, rfl, hgap, hbody⟩ := exists_gap cs
  cases body with
  | nil =>
    rw [List.append_nil, opensParen_of_blank hgap, opensParen_of_blank (hgap.append hback)]
  | cons c rest =>
    rw [List.append_assoc, List.cons_append, opensParen_append hgap (hbody c rfl),
      opensParen_append hgap (hbody c rfl)]

theorem wordToken_append_blank (word cs : List Char) :
    wordToken word (cs ++ back) = wordToken word cs := by
  rw [wordToken, opensParen_append_blank hback, wordToken]

theorem readWord_append_blank (cs : List Char) : readWord (cs ++ back) = readWord cs := by
  have hname : ∀ c ∈ back, isNameChar c = false := fun c hc ↦ isNameChar_of_isBlank (hback c hc)
  rw [readWord, takeWhile_append_of_forall hname, dropWhile_append_of_forall hname,
    wordToken_append_blank hback, readWord]

/-- Blanks behind a text change no token that is read from it. -/
theorem readToken_append_blank {c : Char} {cs : List Char} {token : Token} {length : Nat} :
    readToken c (cs ++ back) = ⟨.ok token, length⟩ ↔ readToken c cs = ⟨.ok token, length⟩ := by
  unfold readToken
  rw [← List.cons_append, readSign?_append_blank hback, startsNumber_append_blank hback,
    readColumnIndex_append_blank hback, readNumber_append_blank hback,
    readWord_append_blank hback]
  split
  · exact Iff.rfl
  · split_ifs with hquote hbracket
    · refine readDelimited_append_blank hback ?_
      rcases hquote with rfl | rfl <;> decide
    · exact readDelimited_append_blank hback (by decide)
    all_goals exact Iff.rfl

end AppendBlank

/-! ### Tokens without their offsets -/

namespace TextCursor

/-- The tokens from a cursor on, offsets apart; nothing if one of them cannot be read. -/
def tokens? (cursor : TextCursor) : Option (List Token) :=
  cursor.tokens.toOption.map fun list ↦ list.tokens.map LocatedToken.token

theorem tokens?_blank {gap : List Char} (hgap : Blank gap) (offset : Nat) :
    tokens? ⟨gap, offset⟩ = some [] := by
  rw [tokens?, tokens_blank hgap]
  rfl

theorem tokens?_fault {gap rest : List Char} {c : Char} {fault : LexFault} (hgap : Blank gap)
    (hc : isBlank c = false) (hread : (readToken c rest).outcome = .error fault) (offset : Nat) :
    tokens? ⟨gap ++ c :: rest, offset⟩ = none := by
  rw [tokens?, tokens_fault hgap hc hread]
  rfl

theorem tokens?_token {gap tail rest : List Char} {c : Char} {token : Token} (hgap : Blank gap)
    (hc : isBlank c = false)
    (hread : readToken c (tail ++ rest) = ⟨.ok token, (c :: tail).length⟩) (offset : Nat) :
    tokens? ⟨gap ++ (c :: tail ++ rest), offset⟩ =
      (tokens? ⟨rest, offset + gap.length + (c :: tail).length⟩).map (token :: ·) := by
  rw [tokens?, tokens_token hgap hc hread, tokens?]
  cases tokens ⟨rest, offset + gap.length + (c :: tail).length⟩ <;> rfl

/-- It makes no difference where a text stands. -/
theorem tokens?_offset (cs : List Char) (first second : Nat) :
    tokens? ⟨cs, first⟩ = tokens? ⟨cs, second⟩ := by
  induction cs using readingInduction generalizing first second with
  | blank gap hgap => rw [tokens?_blank hgap, tokens?_blank hgap]
  | fault gap c rest fault hgap hc hread =>
    rw [tokens?_fault hgap hc hread, tokens?_fault hgap hc hread]
  | token gap c tail rest token hgap hc hread ih =>
    rw [tokens?_token hgap hc hread, tokens?_token hgap hc hread, ih]

end TextCursor

/-- The tokens of a text, offsets apart. -/
def tokens? (cs : List Char) : Option (List Token) := (TextCursor.start cs).tokens?

theorem tokens?_blank {gap : List Char} (hgap : Blank gap) : tokens? gap = some [] :=
  TextCursor.tokens?_blank hgap 0

theorem tokens?_fault {gap rest : List Char} {c : Char} {fault : LexFault} (hgap : Blank gap)
    (hc : isBlank c = false) (hread : (readToken c rest).outcome = .error fault) :
    tokens? (gap ++ c :: rest) = none :=
  TextCursor.tokens?_fault hgap hc hread 0

theorem tokens?_token {gap tail rest : List Char} {c : Char} {token : Token} (hgap : Blank gap)
    (hc : isBlank c = false)
    (hread : readToken c (tail ++ rest) = ⟨.ok token, (c :: tail).length⟩) :
    tokens? (gap ++ (c :: tail ++ rest)) = (tokens? rest).map (token :: ·) := by
  rw [tokens?, TextCursor.start, TextCursor.tokens?_token hgap hc hread,
    TextCursor.tokens?_offset rest _ 0]
  rfl

/-- A spelling is read as its token, and reading goes on behind it. -/
theorem tokens?_spelling {token : Token} {gap spelling rest : List Char} (hgap : Blank gap)
    (hspelled : token.SpelledBy spelling) (hend : token.EndsBefore rest) :
    tokens? (gap ++ (spelling ++ rest)) = (tokens? rest).map (token :: ·) := by
  obtain ⟨c, tail, rfl, hc, -⟩ := hspelled.exists_cons
  exact tokens?_token hgap hc (readToken_of_spelledBy hspelled hend)

/-! ### Blanks in front and behind -/

theorem tokens?_blank_append {front : List Char} (hfront : Blank front) (cs : List Char) :
    tokens? (front ++ cs) = tokens? cs := by
  induction cs using readingInduction with
  | blank gap hgap => rw [tokens?_blank hgap, tokens?_blank (hfront.append hgap)]
  | fault gap c rest fault hgap hc hread =>
    rw [← List.append_assoc, tokens?_fault hgap hc hread,
      tokens?_fault (hfront.append hgap) hc hread]
  | token gap c tail rest token hgap hc hread _ =>
    rw [← List.append_assoc front, tokens?_token hgap hc hread,
      tokens?_token (hfront.append hgap) hc hread]

theorem tokens?_append_blank {back : List Char} (hback : Blank back) (cs : List Char) :
    tokens? (cs ++ back) = tokens? cs := by
  induction cs using readingInduction with
  | blank gap hgap => rw [tokens?_blank hgap, tokens?_blank (hgap.append hback)]
  | fault gap c rest fault hgap hc hread =>
    rw [tokens?_fault hgap hc hread, List.append_assoc, List.cons_append]
    cases hpadded : (readToken c (rest ++ back)).outcome with
    | error e => exact tokens?_fault hgap hc hpadded
    | ok token =>
      -- A token of the padded text would be a token of the text.
      have htoken : readToken c rest = ⟨.ok token, (readToken c (rest ++ back)).length⟩ :=
        (readToken_append_blank hback).mp (by rw [← hpadded])
      rw [htoken] at hread
      cases hread
  | token gap c tail rest token hgap hc hread ih =>
    have hpadded : readToken c (tail ++ (rest ++ back)) = ⟨.ok token, (c :: tail).length⟩ := by
      rw [← List.append_assoc]
      exact (readToken_append_blank hback).mpr hread
    rw [tokens?_token hgap hc hread, List.append_assoc, List.append_assoc,
      tokens?_token hgap hc hpadded, ih]

/-! ### Trimming -/

/-- A text is its trimmed text with blanks around. -/
theorem exists_append_trim (cs : List Char) :
    ∃ front back, cs = front ++ (trim cs ++ back) ∧ Blank front ∧ Blank back := by
  have hback := List.takeWhile_append_dropWhile (p := isBlank) (l := (cs.dropWhile isBlank).reverse)
  have hbody := congrArg List.reverse hback
  rw [List.reverse_append, List.reverse_reverse] at hbody
  refine ⟨cs.takeWhile isBlank, ((cs.dropWhile isBlank).reverse.takeWhile isBlank).reverse, ?_,
    fun c hc ↦ List.mem_takeWhile_imp hc,
    fun c hc ↦ List.mem_takeWhile_imp (List.mem_reverse.mp hc)⟩
  rw [trim, hbody, List.takeWhile_append_dropWhile]

theorem trim_eq_nil_iff {cs : List Char} : trim cs = [] ↔ Blank cs := by
  constructor
  · intro h
    obtain ⟨front, back, hcs, hfront, hback⟩ := exists_append_trim cs
    rw [hcs, h]
    exact hfront.append hback
  · intro h
    rw [trim, List.dropWhile_eq_nil_iff.mpr h]
    rfl

theorem trim_blank_append {front : List Char} (hfront : Blank front) (cs : List Char) :
    trim (front ++ cs) = trim cs := by
  rw [trim, List.dropWhile_append_of_pos hfront, trim]

theorem trim_append_blank {back : List Char} (hback : Blank back) (cs : List Char) :
    trim (cs ++ back) = trim cs := by
  by_cases hcs : Blank cs
  · rw [trim_eq_nil_iff.mpr hcs, trim_eq_nil_iff.mpr (hcs.append hback)]
  · have hdrop : (cs ++ back).dropWhile isBlank = cs.dropWhile isBlank ++ back := by
      rw [List.dropWhile_append, if_neg]
      rw [List.isEmpty_iff, List.dropWhile_eq_nil_iff]
      exact hcs
    have hreverse : ∀ c ∈ back.reverse, isBlank c = true :=
      fun c hc ↦ hback c (List.mem_reverse.mp hc)
    rw [trim, hdrop, List.reverse_append, List.dropWhile_append_of_pos hreverse, trim]

@[simp] theorem tokens?_trim (cs : List Char) : tokens? (trim cs) = tokens? cs := by
  obtain ⟨front, back, hcs, hfront, hback⟩ := exists_append_trim cs
  calc tokens? (trim cs) = tokens? (front ++ (trim cs ++ back)) := by
        rw [tokens?_blank_append hfront, tokens?_append_blank hback]
    _ = tokens? cs := by rw [← hcs]

/-! ### Compiling trimmed texts -/

theorem compileWith_eq_ok_iff {α : Type} {reader : Parse α} {cs : List Char} {a : α} :
    compileWith reader (.ofList cs) = .ok a ↔
      ∃ list, (TextCursor.start cs).tokens = .ok list ∧ reader.result (.start list) = .ok a := by
  rw [compileWith, tokenize, String.toList_ofList]
  cases (TextCursor.start cs).tokens with
  | error e => simp
  | ok list => simp [mapError_eq_ok_iff]

theorem tokens?_eq_some_iff {cs : List Char} {tokens : List Token} :
    tokens? cs = some tokens ↔ ∃ list, (TextCursor.start cs).tokens = .ok list ∧
      list.tokens.map LocatedToken.token = tokens := by
  rw [tokens?, TextCursor.tokens?]
  cases (TextCursor.start cs).tokens <;> simp [Except.toOption]

/-- A text compiles to the expressions that its tokens derive. -/
theorem compileExpression_eq_ok_iff {cs : List Char} {e : Expr Reference} :
    compileExpression (.ofList cs) = .ok e ↔
      ∃ tokens n, tokens? cs = some tokens ∧ Derives (.level .or e) tokens n ∧ n < maxDepth ∧
        e.depth ≤ maxDepth := by
  rw [compileExpression, compileWith_eq_ok_iff]
  constructor
  · rintro ⟨list, hlist, hresult⟩
    obtain ⟨n, hderives⟩ := Parse.wholeExpression_eq_ok_iff.mp hresult
    exact ⟨_, n, tokens?_eq_some_iff.mpr ⟨list, hlist, rfl⟩, hderives⟩
  · rintro ⟨tokens, n, htokens, hderives⟩
    obtain ⟨list, hlist, rfl⟩ := tokens?_eq_some_iff.mp htokens
    exact ⟨list, hlist, Parse.wholeExpression_eq_ok_iff.mpr ⟨n, hderives⟩⟩

/-- A text compiles to the statements that its tokens derive. -/
theorem compileStatement_eq_ok_iff {cs : List Char} {statement : Statement Reference} :
    compileStatement (.ofList cs) = .ok statement ↔
      ∃ tokens n, tokens? cs = some tokens ∧ DerivesStatement statement tokens n ∧ n < maxDepth ∧
        statement.value.depth ≤ maxDepth := by
  rw [compileStatement, compileWith_eq_ok_iff]
  constructor
  · rintro ⟨list, hlist, hresult⟩
    obtain ⟨n, hderives⟩ := Parse.wholeStatement_eq_ok_iff.mp hresult
    exact ⟨_, n, tokens?_eq_some_iff.mpr ⟨list, hlist, rfl⟩, hderives⟩
  · rintro ⟨tokens, n, htokens, hderives⟩
    obtain ⟨list, hlist, rfl⟩ := tokens?_eq_some_iff.mp htokens
    exact ⟨list, hlist, Parse.wholeStatement_eq_ok_iff.mpr ⟨n, hderives⟩⟩

/-- Trimming a text changes nothing about the statement it compiles to. -/
theorem compileStatement_trim_eq_ok_iff {cs : List Char} {statement : Statement Reference} :
    compileStatement (.ofList (trim cs)) = .ok statement ↔
      compileStatement (.ofList cs) = .ok statement := by
  rw [compileStatement_eq_ok_iff, tokens?_trim, compileStatement_eq_ok_iff]

end ColumnFormula
