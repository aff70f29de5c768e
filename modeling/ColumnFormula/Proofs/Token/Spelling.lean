import ColumnFormula.Token.Lexer
import Mathlib.Data.List.TakeWhile

/-!
# Spellings of tokens

A token may be spelled in several ways: a text in either kind of quotes, a number by any plain
numeral, the word `NEW` in any letter case. `Token.SpelledBy` lists them. Not every text may follow
a spelling, since the lexer reads as far as it can: a word must not be prolonged by a name
character, `<` must not become `<=`, and whether `new` is a name depends on the parenthesis behind
it (`Token.EndsBefore`). Where the end is clear the lexer reads exactly the spelling
(`readToken_of_spelledBy`).
-/

set_option autoImplicit false
set_option relaxedAutoImplicit false

namespace ColumnFormula

/-! ### Reserved characters -/

/-- The characters of signs. -/
def signChars : List Char := ['&', '|', '=', '!', '<', '>', '+', '-', '*', '/', '(', ')', ',']

/-- Blanks and the characters of signs, quotes, brackets and separators. They have a use of their
own and occur in no word and no number. -/
def isReserved (c : Char) : Bool :=
  isBlank c || signChars.contains c || ['"', '\'', '[', ']', '#', ';'].contains c

theorem CharRanges.exists_of_contains {ranges : CharRanges} {code : Nat}
    (h : ranges.contains code = true) : ∃ range ∈ ranges, range.1 ≤ code ∧ code ≤ range.2 := by
  fun_induction CharRanges.contains ranges code with
  | case1 => cases h
  | case2 => cases h
  | case3 first last rest code hfirst hlast =>
    exact ⟨(first, last), List.mem_cons_self, Nat.not_lt.mp hfirst, hlast⟩
  | case4 first last rest code hfirst hlast ih =>
    obtain ⟨range, hmem, hrange⟩ := ih h
    exact ⟨range, List.mem_cons_of_mem _ hmem, hrange⟩

/-- The code points of the blanks, one by one. -/
def blankCodes : List Nat :=
  whiteSpaceRanges.flatMap fun range ↦ List.range' range.1 (range.2 + 1 - range.1)

theorem toNat_mem_blankCodes {c : Char} (h : isBlank c = true) : c.toNat ∈ blankCodes := by
  obtain ⟨range, hmem, hfirst, hlast⟩ := CharRanges.exists_of_contains h
  refine List.mem_flatMap.mpr ⟨range, hmem, List.mem_range'_1.mpr ⟨hfirst, ?_⟩⟩
  omega

theorem isLiteralChar_of_isReserved {c : Char} (h : isReserved c = true) :
    isLiteralChar c = false := by
  have hblank : ∀ code ∈ blankCodes, isLiteralChar (Char.ofNat code) = false := by
    decide +kernel
  have hother : ∀ c ∈ signChars ++ ['"', '\'', '[', ']', '#', ';'], (!isLiteralChar c) = true :=
    List.all_eq_true.mp (by decide +kernel)
  simp only [isReserved, Bool.or_eq_true, List.contains_iff_mem] at h
  rcases h with (h | h) | h
  · simpa using hblank c.toNat (toNat_mem_blankCodes h)
  · simpa using hother c (List.mem_append_left _ h)
  · simpa using hother c (List.mem_append_right _ h)

theorem isReserved_of_isLiteralChar {c : Char} (h : isLiteralChar c = true) :
    isReserved c = false := by
  by_contra hreserved
  rw [isLiteralChar_of_isReserved (by simpa using hreserved)] at h
  cases h

theorem isLiteralChar_of_isNameChar {c : Char} (h : isNameChar c = true) :
    isLiteralChar c = true := by
  simp [isLiteralChar, h]

theorem isNameChar_of_isReserved {c : Char} (h : isReserved c = true) : isNameChar c = false := by
  by_contra hname
  have hliteral := isLiteralChar_of_isNameChar (c := c) (by simpa using hname)
  rw [isLiteralChar_of_isReserved h] at hliteral
  cases hliteral

theorem isBlank_of_not_isReserved {c : Char} (h : isReserved c = false) : isBlank c = false := by
  simp only [isReserved, Bool.or_eq_false_iff] at h
  exact h.1.1

theorem isReserved_of_isBlank {c : Char} (h : isBlank c = true) : isReserved c = true := by
  simp [isReserved, h]

/-- No name starts with a digit. -/
theorem isDigit_of_isNameStart {c : Char} (h : isNameStart c = true) : c.isDigit = false := by
  have hdigits : ∀ code ∈ List.range' 48 10, isNameStart (Char.ofNat code) = false := by
    decide +kernel
  by_contra hdigit
  have hrange : 48 ≤ c.toNat ∧ c.toNat ≤ 57 := by
    simpa [Char.isDigit, UInt32.le_iff_toNat_le] using hdigit
  have hname := hdigits c.toNat (List.mem_range'_1.mpr ⟨hrange.1, by omega⟩)
  rw [Char.ofNat_toNat, h] at hname
  cases hname

/-! ### Reading up to a boundary -/

/-- A text that the characters of a class do not go on into. -/
def Boundary (p : Char → Bool) (rest : List Char) : Prop := ∀ c ∈ rest.head?, p c = false

theorem boundary_cons {p : Char → Bool} {c : Char} (hc : p c = false) (rest : List Char) :
    Boundary p (c :: rest) := by
  intro d hd
  obtain rfl := Option.some.inj hd
  exact hc

theorem takeWhile_append_boundary {p : Char → Bool} {body rest : List Char}
    (hbody : ∀ c ∈ body, p c = true) (hrest : Boundary p rest) :
    (body ++ rest).takeWhile p = body := by
  rw [List.takeWhile_append_of_pos hbody]
  cases rest with
  | nil => simp
  | cons c rest => simp [hrest c rfl]

theorem dropWhile_append_boundary {p : Char → Bool} {body rest : List Char}
    (hbody : ∀ c ∈ body, p c = true) (hrest : Boundary p rest) :
    (body ++ rest).dropWhile p = rest := by
  rw [List.dropWhile_append_of_pos hbody]
  cases rest with
  | nil => rfl
  | cons c rest => simp [hrest c rfl]

/-! ### Spellings -/

/-- The words that are literals. -/
def keywords : List (List Char) := ["true".toList, "false".toList, "nil".toList]

/-- A word that can be a name: a name character after the other, and no literal. -/
structure IsName (word : List Char) : Prop where
  exists_start : ∃ c rest, word = c :: rest ∧ isNameStart c = true
  isNameChar : ∀ c ∈ word, isNameChar c = true
  not_keyword : word ∉ keywords

/-- The ways to spell a token. -/
inductive Token.SpelledBy : Token → List Char → Prop
  | number {literal : List Char} {numeral : Numeral}
      (hliteral : ∀ c ∈ literal, isLiteralChar c = true) (hstart : startsNumber literal = true)
      (hread : readPlainNumeral? literal = some numeral) :
      SpelledBy (.number (numeral.toBinary64 false)) literal
  | text {quote : Char} {content : String} (hquote : quote = '"' ∨ quote = '\'')
      (hcontent : quote ∉ content.toList) :
      SpelledBy (.text content) (quote :: (content.toList ++ [quote]))
  | boolean (value : Bool) : SpelledBy (.boolean value) (toString value).toList
  | nil : SpelledBy .nil "nil".toList
  | identifier {name : String} (hname : IsName name.toList) :
      SpelledBy (.identifier name) name.toList
  | columnName {name : String} (hname : ']' ∉ name.toList) :
      SpelledBy (.columnName name) ('[' :: (name.toList ++ [']']))
  | columnIndex {digits : List Char} (hne : digits ≠ [])
      (hdigits : ∀ c ∈ digits, c.isDigit = true) (hsize : ofDecimalDigits digits < UInt64.size) :
      SpelledBy (.columnIndex (ofDecimalDigits digits)) ('#' :: digits)
  | new {word : List Char} (hword : isNewWord word = true) : SpelledBy .new word
  | sign {sign : List Char} {token : Token} (hsign : (sign, token) ∈ Token.signs) :
      SpelledBy token sign

/-- Whether a spelling of the token may end where the given text follows. -/
def Token.EndsBefore (rest : List Char) : Token → Prop
  | .number _ => Boundary isLiteralChar rest
  | .columnIndex _ => Boundary isLiteralChar rest
  | .boolean _ => Boundary isNameChar rest
  | .nil => Boundary isNameChar rest
  | .identifier name =>
    Boundary isNameChar rest ∧ (isNewWord name.toList = true → opensParen rest = false)
  | .new => Boundary isNameChar rest ∧ opensParen rest = true
  | .operator .concat => Boundary ('&' == ·) rest
  | .operator (.comparison .less) => Boundary ('=' == ·) rest
  | .operator (.comparison .greater) => Boundary ('=' == ·) rest
  | .assign => Boundary ('=' == ·) rest
  | _ => True

/-! ### Signs -/

theorem readSign?_eq_none {c : Char} {rest : List Char} (h : c ∉ signChars) :
    readSign? (c :: rest) = none := by
  have hheads : ∀ entry ∈ Token.signs, entry.1.head?.any (signChars.contains ·) = true := by
    decide
  refine List.find?_eq_none.mpr fun entry hentry hprefix ↦ ?_
  obtain ⟨d, hhead, hd⟩ := (Option.any_eq_true _ _).mp (hheads entry hentry)
  obtain ⟨suffix, happend⟩ := List.isPrefixOf_iff_prefix.mp hprefix
  obtain ⟨tail, hentry⟩ := List.head?_eq_some_iff.mp hhead
  rw [hentry, List.cons_append] at happend
  obtain ⟨rfl, -⟩ := List.cons.inj happend
  exact h (List.contains_iff_mem.mp hd)

/-- The longest sign is the one that is spelled, unless what follows prolongs it. -/
theorem readSign?_append {sign rest : List Char} {token : Token}
    (hsign : (sign, token) ∈ Token.signs) (hend : token.EndsBefore rest) :
    readSign? (sign ++ rest) = some (sign, token) := by
  simp only [Token.signs, List.mem_cons, List.not_mem_nil, or_false, Prod.mk.injEq] at hsign
  rcases hsign with ⟨rfl, rfl⟩ | ⟨rfl, rfl⟩ | ⟨rfl, rfl⟩ | ⟨rfl, rfl⟩ | ⟨rfl, rfl⟩ | ⟨rfl, rfl⟩ |
    ⟨rfl, rfl⟩ | ⟨rfl, rfl⟩ | ⟨rfl, rfl⟩ | ⟨rfl, rfl⟩ | ⟨rfl, rfl⟩ | ⟨rfl, rfl⟩ | ⟨rfl, rfl⟩ |
    ⟨rfl, rfl⟩ | ⟨rfl, rfl⟩ | ⟨rfl, rfl⟩ | ⟨rfl, rfl⟩ <;>
  cases rest <;>
  simp_all [readSign?, Token.signs, List.isPrefixOf, Token.EndsBefore, Boundary]

/-! ### Words -/

theorem eq_or_eq_of_toLower_eq {c d : Char} (h : c.toLower = d) :
    c = d ∨ c = Char.ofNat (d.toNat - 32) := by
  subst h
  by_cases hupper : c.val ≥ 'A'.val ∧ c.val ≤ 'Z'.val
  · right
    have hlast : c.toNat ≤ 90 := UInt32.le_iff_toNat_le.mp hupper.2
    have hlower : c.toLower.toNat = c.toNat + 32 := by
      have hval : c.toLower.val = c.val + 32 := by
        rw [show c.toLower = _ from dif_pos hupper]
        rfl
      show c.toLower.val.toNat = c.toNat + 32
      rw [hval, UInt32.toNat_add]
      show (c.toNat + 32) % 2 ^ 32 = c.toNat + 32
      omega
    rw [hlower, Nat.add_sub_cancel, Char.ofNat_toNat]
  · left
    exact (show c.toLower = c from dif_neg hupper).symm

/-- In every letter case `new` consists of letters. -/
theorem isNameStart_of_isNewWord {word : List Char} (h : isNewWord word = true) {c : Char}
    (hc : c ∈ word) : isNameStart c = true := by
  have hletters : ∀ d ∈ "new".toList,
      (isNameStart d && isNameStart (Char.ofNat (d.toNat - 32))) = true :=
    List.all_eq_true.mp (by decide +kernel)
  simp only [Bool.and_eq_true] at hletters
  have hlower : c.toLower ∈ "new".toList := by
    rw [isNewWord, beq_iff_eq] at h
    rw [← h]
    exact List.mem_map_of_mem hc
  rcases eq_or_eq_of_toLower_eq (c := c) rfl with hsame | hupper
  · rw [hsame]
    exact (hletters _ hlower).1
  · rw [hupper]
    exact (hletters _ hlower).2

theorem not_keyword_of_isNewWord {word : List Char} (h : isNewWord word = true) :
    word ∉ keywords := by
  have hkeywords : ∀ keyword ∈ keywords, isNewWord keyword = false := by decide
  intro hmem
  rw [hkeywords word hmem] at h
  cases h

/-! ### Reading one token -/

theorem readToken_of_not_isReserved {c : Char} {rest : List Char} (h : isReserved c = false) :
    readToken c rest =
      if startsNumber (c :: rest) then readNumber (c :: rest)
      else if isNameStart c then readWord (c :: rest)
      else ⟨.error (.unexpectedCharacter c), 0⟩ := by
  simp only [isReserved, Bool.or_eq_false_iff, List.contains_eq_mem, decide_eq_false_iff_not] at h
  obtain ⟨⟨-, hsign⟩, hother⟩ := h
  simp only [List.mem_cons, List.not_mem_nil, or_false, not_or] at hother
  obtain ⟨hdouble, hsingle, hbracket, -, hindex, -⟩ := hother
  simp [readToken, readSign?_eq_none hsign, hdouble, hsingle, hbracket, hindex]

theorem startsNumber_append {cs rest : List Char} (h : startsNumber cs = true) :
    startsNumber (cs ++ rest) = true := by
  unfold startsNumber at h
  split at h
  · exact h
  · unfold startsNumber
    split
    · rename_i heq
      obtain ⟨rfl, -⟩ := List.cons.inj heq
      cases h
    · rename_i heq
      obtain ⟨rfl, -⟩ := List.cons.inj heq
      exact h
    · rename_i heq
      cases heq
  · cases h

theorem readToken_number {c : Char} {tail rest : List Char} {numeral : Numeral}
    (hliteral : ∀ d ∈ c :: tail, isLiteralChar d = true) (hstart : startsNumber (c :: tail) = true)
    (hread : readPlainNumeral? (c :: tail) = some numeral) (hend : Boundary isLiteralChar rest) :
    readToken c (tail ++ rest) =
      ⟨.ok (.number (numeral.toBinary64 false)), (c :: tail).length⟩ := by
  have hstarts : startsNumber (c :: (tail ++ rest)) = true := startsNumber_append hstart
  rw [readToken_of_not_isReserved (isReserved_of_isLiteralChar (hliteral c List.mem_cons_self)),
    if_pos hstarts, readNumber, ← List.cons_append,
    takeWhile_append_boundary hliteral hend, hread]

/-- A word is read up to its end. -/
theorem readToken_word {c : Char} {tail rest : List Char} (hstart : isNameStart c = true)
    (hword : ∀ d ∈ c :: tail, isNameChar d = true) (hend : Boundary isNameChar rest) :
    readToken c (tail ++ rest) = ⟨.ok (wordToken (c :: tail) rest), (c :: tail).length⟩ := by
  have hliteral := isLiteralChar_of_isNameChar (hword c List.mem_cons_self)
  have hstarts : startsNumber (c :: (tail ++ rest)) = false := by
    have hdigit := isDigit_of_isNameStart hstart
    unfold startsNumber
    split
    · rename_i heq
      obtain ⟨rfl, -⟩ := List.cons.inj heq
      exact absurd hstart (by decide)
    · rename_i heq
      obtain ⟨rfl, -⟩ := List.cons.inj heq
      exact hdigit
    · rfl
  rw [readToken_of_not_isReserved (isReserved_of_isLiteralChar hliteral), hstarts,
    if_neg Bool.false_ne_true, if_pos hstart, readWord, ← List.cons_append,
    takeWhile_append_boundary hword hend, dropWhile_append_boundary hword hend]

theorem readDelimited_append {close : Char} {token : String → Token} {fault : LexFault}
    {content : String} {rest : List Char} (h : close ∉ content.toList) :
    readDelimited close token fault (content.toList ++ close :: rest) =
      ⟨.ok (token content), content.toList.length + 2⟩ := by
  have htake : (content.toList ++ close :: rest).takeWhile (· != close) = content.toList := by
    refine takeWhile_append_boundary (fun c hc ↦ ?_) (by simp [Boundary])
    have hne : c ≠ close := fun heq ↦ h (heq ▸ hc)
    simpa using hne
  simp [readDelimited, htake]

theorem wordToken_of_not_keyword {word rest : List Char} (h : word ∉ keywords) :
    wordToken word rest =
      if isNewWord word && opensParen rest then .new else .identifier (String.ofList word) := by
  simp only [keywords, List.mem_cons, List.not_mem_nil, or_false, not_or] at h
  obtain ⟨htrue, hfalse, hnil⟩ := h
  rw [wordToken, if_neg htrue, if_neg hfalse, if_neg hnil]

/-- A text in quotes. The quote is no sign, and it is the first character after which the lexer
looks for a close. -/
theorem readToken_text {quote : Char} {content : String} {rest : List Char}
    (hquote : quote = '"' ∨ quote = '\'') (hcontent : quote ∉ content.toList) :
    readToken quote (content.toList ++ [quote] ++ rest) =
      ⟨.ok (.text content), content.toList.length + 2⟩ := by
  have hsign : quote ∉ signChars := by rcases hquote with rfl | rfl <;> decide
  rw [readToken, readSign?_eq_none hsign]
  dsimp only
  rw [if_pos hquote, List.append_assoc]
  exact readDelimited_append hcontent

theorem readToken_columnName {name : String} {rest : List Char} (hname : ']' ∉ name.toList) :
    readToken '[' (name.toList ++ [']'] ++ rest) =
      ⟨.ok (.columnName name), name.toList.length + 2⟩ := by
  rw [readToken, readSign?_eq_none (by decide)]
  dsimp only
  rw [if_neg (by decide), if_pos rfl, List.append_assoc]
  exact readDelimited_append hname

theorem isLiteralChar_of_isDigit {c : Char} (h : c.isDigit = true) : isLiteralChar c = true := by
  simp [isLiteralChar, isNameChar, isAlphanumeric, isNumeric_of_isDigit h]

theorem readToken_columnIndex {digits rest : List Char} (hne : digits ≠ [])
    (hdigits : ∀ c ∈ digits, c.isDigit = true) (hsize : ofDecimalDigits digits < UInt64.size)
    (hend : Boundary isLiteralChar rest) :
    readToken '#' (digits ++ rest) =
      ⟨.ok (.columnIndex (ofDecimalDigits digits)), digits.length + 1⟩ := by
  have htake : (digits ++ rest).takeWhile isLiteralChar = digits :=
    takeWhile_append_boundary (fun c hc ↦ isLiteralChar_of_isDigit (hdigits c hc)) hend
  have hall : digits.all Char.isDigit = true := List.all_eq_true.mpr hdigits
  rw [readToken, readSign?_eq_none (by decide)]
  dsimp only
  rw [if_neg (by decide), if_neg (by decide), if_pos rfl, readColumnIndex, htake]
  simp [hne, hall, hsize]

/-- The lexer reads a spelling up to its end. -/
theorem readToken_of_spelledBy {token : Token} {c : Char} {tail rest : List Char}
    (h : token.SpelledBy (c :: tail)) (hend : token.EndsBefore rest) :
    readToken c (tail ++ rest) = ⟨.ok token, (c :: tail).length⟩ := by
  generalize hspelling : c :: tail = spelling at h
  cases h with
  | number hliteral hstart hread =>
    subst hspelling
    exact readToken_number hliteral hstart hread hend
  | text hquote hcontent =>
    obtain ⟨rfl, rfl⟩ := List.cons.inj hspelling
    rw [readToken_text hquote hcontent]
    simp
  | boolean value =>
    have hword := @readToken_word c tail rest
    cases value <;> obtain ⟨rfl, rfl⟩ := List.cons.inj hspelling
    · rw [hword (by decide +kernel) (List.all_eq_true.mp (by decide +kernel)) hend]
      rfl
    · rw [hword (by decide +kernel) (List.all_eq_true.mp (by decide +kernel)) hend]
      rfl
  | nil =>
    obtain ⟨rfl, rfl⟩ := List.cons.inj hspelling
    rw [readToken_word (by decide +kernel) (List.all_eq_true.mp (by decide +kernel)) hend]
    rfl
  | @identifier name hname =>
    obtain ⟨⟨d, rest', hcons, hstart⟩, hchars, hkeyword⟩ := hname
    obtain ⟨rfl, rfl⟩ := List.cons.inj (hspelling.trans hcons)
    rw [← hspelling] at hchars hkeyword
    have hnew : (isNewWord (c :: tail) && opensParen rest) = false := by
      rw [hspelling]
      exact Bool.and_eq_false_imp.mpr hend.2
    rw [readToken_word hstart hchars hend.1, wordToken_of_not_keyword hkeyword, hnew, hspelling,
      String.ofList_toList]
    rfl
  | columnName hname =>
    obtain ⟨rfl, rfl⟩ := List.cons.inj hspelling
    rw [readToken_columnName hname]
    simp
  | columnIndex hne hdigits hsize =>
    obtain ⟨rfl, rfl⟩ := List.cons.inj hspelling
    exact readToken_columnIndex hne hdigits hsize hend
  | new hword =>
    subst hspelling
    have hchars : ∀ d ∈ c :: tail, isNameChar d = true :=
      fun d hd ↦ isNameChar_of_isNameStart (isNameStart_of_isNewWord hword hd)
    rw [readToken_word (isNameStart_of_isNewWord hword List.mem_cons_self) hchars hend.1,
      wordToken_of_not_keyword (not_keyword_of_isNewWord hword), hword, hend.2]
    rfl
  | sign hsign =>
    subst hspelling
    rw [readToken, ← List.cons_append, readSign?_append hsign hend]

end ColumnFormula
