import ColumnFormula.Text.Blank
import ColumnFormula.Text.Word
import ColumnFormula.Token

/-!
Cutting a text into tokens. `readToken` reads one token at the start of a text and says how many
characters it read; a `TextCursor` carries the rest of a text and the offset reached, skips blanks
and goes on after errors as well. `tokenize` reads until the end or the first error. A token always
takes at least one character (`readToken_length_pos`), so tokenizing ends.
-/

set_option autoImplicit false
set_option relaxedAutoImplicit false

namespace ColumnFormula

/-- Why no token could be read. -/
inductive LexFault where
  | unterminatedText
  | unterminatedColumnName
  | invalidNumber (literal : String)
  | invalidColumnIndex (literal : String)
  | unexpectedCharacter (char : Char)
  deriving DecidableEq

/-- A fault with the offset where the token would have started. -/
structure LexError where
  fault : LexFault
  position : Nat
  deriving DecidableEq

def LexError.message (e : LexError) : String :=
  match e.fault with
  | .unterminatedText =>
    s!"Unterminated string starting at position {e.position}: missing closing quote"
  | .unterminatedColumnName =>
    s!"Unterminated column name starting at position {e.position}: missing ']'"
  | .invalidNumber literal => s!"Invalid numeric literal '{literal}' at position {e.position}"
  | .invalidColumnIndex literal => s!"Invalid column index '{literal}' at position {e.position}"
  | .unexpectedCharacter char => s!"Unexpected character '{char}' at position {e.position}"

/-- A token or a fault, and the number of characters read for it. -/
structure Lexeme where
  outcome : Except LexFault Token
  length : Nat

/-! ### Single tokens -/

/-- The longest sign at the start of a text. -/
def readSign? (cs : List Char) : Option (List Char × Token) :=
  Token.signs.find? fun (sign, _) ↦ sign.isPrefixOf cs

/-- What lies between delimiters: everything up to the first `close`. -/
def readDelimited (close : Char) (token : String → Token) (fault : LexFault) (rest : List Char) :
    Lexeme :=
  let body := rest.takeWhile (· != close)
  if body.length < rest.length then ⟨.ok (token (String.ofList body)), body.length + 2⟩
  else ⟨.error fault, rest.length + 1⟩

/-- A number is a maximal run of literal characters that has the form of a plain numeral. -/
def readNumber (cs : List Char) : Lexeme :=
  let literal := cs.takeWhile isLiteralChar
  match readPlainNumeral? literal with
  | some numeral => ⟨.ok (.number (numeral.toBinary64 false)), literal.length⟩
  | none => ⟨.error (.invalidNumber (String.ofList literal)), literal.length⟩

/-- A column position is a maximal run of literal characters behind `#` that is a number of at
most 64 bits. -/
def readColumnIndex (rest : List Char) : Lexeme :=
  let literal := rest.takeWhile isLiteralChar
  if !literal.isEmpty && literal.all Char.isDigit && ofDecimalDigits literal < UInt64.size then
    ⟨.ok (.columnIndex (ofDecimalDigits literal)), literal.length + 1⟩
  else ⟨.error (.invalidColumnIndex (String.ofList ('#' :: literal))), literal.length + 1⟩

/-- Whether the word is `new` in some letter case. -/
def isNewWord (word : List Char) : Bool := word.map Char.toLower == "new".toList

/-- Whether an opening parenthesis comes next, blanks aside. -/
def opensParen (rest : List Char) : Bool := (rest.dropWhile isBlank).head? == some '('

/-- The token of a bare word; `rest` is what follows it. -/
def wordToken (word rest : List Char) : Token :=
  if word = "true".toList then .boolean true
  else if word = "false".toList then .boolean false
  else if word = "nil".toList then .nil
  else if isNewWord word && opensParen rest then .new
  else .identifier (String.ofList word)

/-- A word is a maximal run of name characters. -/
def readWord (cs : List Char) : Lexeme :=
  let word := cs.takeWhile isNameChar
  ⟨.ok (wordToken word (cs.dropWhile isNameChar)), word.length⟩

/-- Whether a number literal starts here. -/
def startsNumber : List Char → Bool
  | '.' :: c :: _ => c.isDigit
  | c :: _ => c.isDigit
  | [] => false

/-- The token at the start of a text `c :: rest`. A character that starts no token is not read. -/
def readToken (c : Char) (rest : List Char) : Lexeme :=
  match readSign? (c :: rest) with
  | some (sign, token) => ⟨.ok token, sign.length⟩
  | none =>
    if c = '"' ∨ c = '\'' then readDelimited c .text .unterminatedText rest
    else if c = '[' then readDelimited ']' .columnName .unterminatedColumnName rest
    else if c = '#' then readColumnIndex rest
    else if startsNumber (c :: rest) then readNumber (c :: rest)
    else if isNameStart c then readWord (c :: rest)
    else ⟨.error (.unexpectedCharacter c), 0⟩

theorem isNumeric_of_isDigit {c : Char} (h : c.isDigit = true) : isNumeric c = true := by
  simp only [Char.isDigit, Bool.and_eq_true, decide_eq_true_eq, UInt32.le_iff_toNat_le] at h
  have hlow : ¬ c.toNat < 48 := Nat.not_lt.2 h.1
  have hhigh : c.toNat ≤ 57 := h.2
  simp [isNumeric, numericRanges, CharRanges.contains, hlow, hhigh]

theorem isNameChar_of_isNameStart {c : Char} (h : isNameStart c = true) : isNameChar c = true := by
  simp only [isNameStart, isNameChar, isAlphanumeric, Bool.or_eq_true] at h ⊢
  exact h.imp_left Or.inl

theorem isLiteralChar_of_startsNumber {c : Char} {rest : List Char}
    (h : startsNumber (c :: rest) = true) : isLiteralChar c = true := by
  unfold startsNumber at h
  split at h
  · rename_i heq
    obtain ⟨rfl, -⟩ := List.cons.inj heq
    decide
  · rename_i heq
    obtain ⟨rfl, -⟩ := List.cons.inj heq
    simp [isLiteralChar, isNameChar, isAlphanumeric, isNumeric_of_isDigit h]
  · simp at h

theorem length_pos_of_mem_signs {sign : List Char} {token : Token}
    (h : (sign, token) ∈ Token.signs) : 0 < sign.length := by
  have hall : ∀ entry ∈ Token.signs, 0 < entry.1.length := by decide
  exact hall _ h

/-- A token takes at least one character. -/
theorem readToken_length_pos {c : Char} {rest : List Char} {token : Token}
    (h : (readToken c rest).outcome = .ok token) : 0 < (readToken c rest).length := by
  unfold readToken at h ⊢
  split
  · rename_i heq
    exact length_pos_of_mem_signs (List.mem_of_find?_eq_some heq)
  · rename_i heq
    simp only [heq] at h
    split
    · unfold readDelimited
      simp only
      split <;> exact Nat.succ_pos _
    · split
      · unfold readDelimited
        simp only
        split <;> exact Nat.succ_pos _
      · split
        · unfold readColumnIndex
          simp only
          split <;> exact Nat.succ_pos _
        · split
          · rename_i hnumber
            have hliteral := isLiteralChar_of_startsNumber hnumber
            unfold readNumber
            simp only
            split <;> simp [hliteral]
          · split
            · rename_i hname
              simp [readWord, isNameChar_of_isNameStart hname]
            · simp_all

/-! ### Whole texts -/

/-- The rest of a text and the number of characters before it. -/
structure TextCursor where
  rest : List Char
  offset : Nat
  deriving DecidableEq

namespace TextCursor

def start (cs : List Char) : TextCursor := ⟨cs, 0⟩

def advance (cursor : TextCursor) (count : Nat) : TextCursor :=
  ⟨cursor.rest.drop count, cursor.offset + count⟩

def skipBlanks (cursor : TextCursor) : TextCursor :=
  cursor.advance (cursor.rest.takeWhile isBlank).length

/-- The next token, none at the end of the text, or an error. After an error reading may go on
where it stopped. -/
def next (cursor : TextCursor) : Except LexError (Option LocatedToken) × TextCursor :=
  let cursor := cursor.skipBlanks
  match cursor.rest with
  | [] => (.ok none, cursor)
  | c :: rest =>
    let lexeme := readToken c rest
    let after := cursor.advance lexeme.length
    match lexeme.outcome with
    | .ok token => (.ok (some ⟨token, cursor.offset⟩), after)
    | .error fault => (.error ⟨fault, cursor.offset⟩, after)

theorem rest_length_next_lt {cursor after : TextCursor} {token : LocatedToken}
    (h : cursor.next = (.ok (some token), after)) : after.rest.length < cursor.rest.length := by
  unfold next at h
  simp only at h
  split at h
  · simp at h
  · rename_i c rest hrest
    split at h
    · rename_i t ht
      have hpos := readToken_length_pos ht
      obtain ⟨-, rfl⟩ := Prod.mk.inj h
      have hlength : (c :: rest).length ≤ cursor.rest.length := by
        rw [← hrest]
        simp only [skipBlanks, advance, List.length_drop]
        omega
      simp only [advance, hrest, List.length_drop, List.length_cons] at hlength ⊢
      omega
    · simp at h

/-- All tokens from the cursor on, or the first error. -/
def tokens (cursor : TextCursor) : Except LexError TokenList :=
  match _h : cursor.next with
  | (.error e, _) => .error e
  | (.ok none, after) => .ok ⟨[], after.offset⟩
  | (.ok (some token), after) =>
    after.tokens.map fun list ↦ { list with tokens := token :: list.tokens }
termination_by cursor.rest.length
decreasing_by exact rest_length_next_lt _h

end TextCursor

/-- The tokens of a text, or its first lexical error. -/
def tokenize (text : String) : Except LexError TokenList :=
  (TextCursor.start text.toList).tokens

end ColumnFormula
