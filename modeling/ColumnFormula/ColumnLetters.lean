/-!
Spreadsheet letters of columns: `A` is the first column, `Z` the twenty-sixth, `AA` the one after
it. Read as a numeral with the digits 1 to 26, the letters denote one more than the position. The
computation stays within words of 64 bits and fails when it leaves them.
-/

set_option autoImplicit false
set_option relaxedAutoImplicit false

namespace ColumnFormula

/-- The place of a capital letter in the alphabet, counted from one. -/
def letterValue (c : Char) : Nat := c.toNat - 'A'.toNat + 1

/-- A number of at most 64 bits, or none. -/
def checkedWord (n : Nat) : Option Nat := if n < UInt64.size then some n else none

/-- Reads one more letter behind letters with the given value. -/
def appendLetter (value : Nat) (c : Char) : Option Nat := do
  let shifted ← checkedWord (value * 26)
  checkedWord (shifted + letterValue c)

/-- The position of the column that a run of capital letters denotes. -/
def columnLetterIndex? (text : String) : Option Nat :=
  let letters := text.toList
  if !letters.isEmpty && letters.all Char.isUpper then
    (letters.foldlM appendLetter 0).map (· - 1)
  else none

end ColumnFormula
