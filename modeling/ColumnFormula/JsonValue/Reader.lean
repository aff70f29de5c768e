import ColumnFormula.JsonValue

/-!
Reading JSON. The reader is strict: four blanks, no leading zeros, no raw control characters, no
half of a surrogate pair, no number past the binary range, and at most 127 levels of arrays and
objects. How many more levels are allowed is the argument that `value?` recurses on. A number that
is no integer of 64 bits is read to the nearest binary64 number; a reader that takes a short cut
there may come out one unit in the last place away, and what is proved of documents does not depend
on which of the two is read.
-/

set_option autoImplicit false
set_option relaxedAutoImplicit false

namespace ColumnFormula.JsonValue

/-- A reader of the start of a text; it gives what it read and the rest. -/
abbrev Read (α : Type) := List Char → Option (α × List Char)

def isJsonBlank (c : Char) : Bool := c == ' ' || c == '\t' || c == '\n' || c == '\r'

def skipBlanks (cs : List Char) : List Char := cs.dropWhile isJsonBlank

/-! ### Strings -/

def hexDigit? (c : Char) : Option Nat :=
  if '0' ≤ c ∧ c ≤ '9' then some (c.toNat - '0'.toNat)
  else if 'a' ≤ c ∧ c ≤ 'f' then some (c.toNat - 'a'.toNat + 10)
  else if 'A' ≤ c ∧ c ≤ 'F' then some (c.toNat - 'A'.toNat + 10)
  else none

/-- A code unit of four hexadecimal digits. -/
def hexUnit? (a b c d : Char) : Option Nat := do
  let a ← hexDigit? a
  let b ← hexDigit? b
  let c ← hexDigit? c
  let d ← hexDigit? d
  some (((a * 16 + b) * 16 + c) * 16 + d)

/-- The character of a one-letter escape. -/
def shortEscape? (c : Char) : Option Char :=
  match c with
  | '"' => some '"'
  | '\\' => some '\\'
  | '/' => some '/'
  | 'b' => some (Char.ofNat 8)
  | 'f' => some (Char.ofNat 12)
  | 'n' => some '\n'
  | 'r' => some '\r'
  | 't' => some '\t'
  | _ => none

def isHighSurrogate (unit : Nat) : Bool := 0xD800 ≤ unit && unit < 0xDC00

def isLowSurrogate (unit : Nat) : Bool := 0xDC00 ≤ unit && unit < 0xE000

/-- The characters of a string up to its closing quote. -/
def stringChars? : Read (List Char)
  | [] => none
  | '"' :: rest => some ([], rest)
  | '\\' :: 'u' :: a :: b :: c :: d :: rest => do
    let unit ← hexUnit? a b c d
    if isHighSurrogate unit then
      match rest with
      | '\\' :: 'u' :: e :: f :: g :: h :: rest => do
        let low ← hexUnit? e f g h
        if isLowSurrogate low then
          let (cs, rest) ← stringChars? rest
          some (Char.ofNat (0x10000 + (unit - 0xD800) * 0x400 + (low - 0xDC00)) :: cs, rest)
        else none
      | _ => none
    else if isLowSurrogate unit then none
    else
      let (cs, rest) ← stringChars? rest
      some (Char.ofNat unit :: cs, rest)
  | '\\' :: c :: rest => do
    let char ← shortEscape? c
    let (cs, rest) ← stringChars? rest
    some (char :: cs, rest)
  | c :: rest =>
    if c = '\\' ∨ c.toNat < 32 then none
    else do
      let (cs, rest) ← stringChars? rest
      some (c :: cs, rest)

/-- A string; its opening quote is still to be read. -/
def string? : Read String
  | '"' :: rest => (stringChars? rest).map fun (cs, rest) ↦ (String.ofList cs, rest)
  | _ => none

/-! ### Numbers -/

/-- The digits before the point: a zero alone, or digits without a leading zero. -/
def wholeDigits? : Read (List Char)
  | '0' :: rest => if (spanDigits rest).1.isEmpty then some (['0'], rest) else none
  | cs =>
    let (digits, rest) := spanDigits cs
    if digits.isEmpty then none else some (digits, rest)

/-- The digits behind a point; none without a point. -/
def fractionDigits? : Read (Option (List Char))
  | '.' :: rest =>
    let (digits, rest) := spanDigits rest
    if digits.isEmpty then none else some (some digits, rest)
  | cs => some (none, cs)

/-- The power of ten behind `e` or `E`; none without one. -/
def exponent? : Read (Option Int)
  | [] => some (none, [])
  | c :: rest =>
    if c = 'e' ∨ c = 'E' then
      let (negative, rest) := readSign rest
      let (digits, rest) := spanDigits rest
      let k : Int := ofDecimalDigits digits
      if digits.isEmpty then none else some (some (if negative then -k else k), rest)
    else some (none, c :: rest)

/-- A number in binary, unless it is past the range. -/
def ofNumeral? (negative : Bool) (n : Numeral) : Option JsonValue :=
  let x := n.toBinary64 negative
  if x.isFinite then some (.number x) else none

/-- A whole number: kept as an integer if it has 64 bits, except for a negative zero. -/
def ofWhole? (negative : Bool) (digits : List Char) : Option JsonValue :=
  let n := ofDecimalDigits digits
  if negative then
    if 0 < n ∧ n ≤ 0x8000000000000000 then some (.integer (-n)) else ofNumeral? true ⟨n, 0⟩
  else if n < UInt64.size then some (.integer n)
  else ofNumeral? false ⟨n, 0⟩

def number? : Read JsonValue := fun cs ↦ do
  let (negative, cs) := match cs with
    | '-' :: rest => (true, rest)
    | cs => (false, cs)
  let (whole, cs) ← wholeDigits? cs
  let (fraction, cs) ← fractionDigits? cs
  let (exponent, cs) ← exponent? cs
  let value ← match fraction, exponent with
    | none, none => ofWhole? negative whole
    | fraction, exponent =>
      ofNumeral? negative ((Numeral.ofDigits whole (fraction.getD [])).scale (exponent.getD 0))
  some (value, cs)

/-! ### Values -/

/-- The word of a literal and the value it stands for. -/
def literals : List (List Char × JsonValue) := [
  ("null".toList, .null),
  ("true".toList, .boolean true),
  ("false".toList, .boolean false)]

/-- A literal, a string or a number. -/
def scalar? : Read JsonValue := fun cs ↦
  match literals.find? fun (word, _) ↦ word.isPrefixOf cs with
  | some (word, value) => some (value, cs.drop word.length)
  | none =>
    match cs with
    | '"' :: _ => (string? cs).map fun (s, rest) ↦ (.text s, rest)
    | _ => number? cs

/-- The items of an array behind its opening bracket, at least one and at most `count + 1`. -/
def items? (item : Read JsonValue) : Nat → Read (List JsonValue)
  | 0, _ => none
  | count + 1, cs => do
    let (first, rest) ← item (skipBlanks cs)
    match skipBlanks rest with
    | ',' :: rest =>
      let (others, rest) ← items? item count rest
      some (first :: others, rest)
    | ']' :: rest => some ([first], rest)
    | _ => none

/-- One member of an object: a name, a colon and a value. -/
def member? (item : Read JsonValue) : Read (String × JsonValue) := fun cs ↦ do
  let (name, rest) ← string? (skipBlanks cs)
  match skipBlanks rest with
  | ':' :: rest =>
    let (value, rest) ← item (skipBlanks rest)
    some ((name, value), rest)
  | _ => none

/-- The members of an object behind its opening brace, in the order of the text. -/
def members? (item : Read JsonValue) : Nat → Read (List (String × JsonValue))
  | 0, _ => none
  | count + 1, cs => do
    let (first, rest) ← member? item cs
    match skipBlanks rest with
    | ',' :: rest =>
      let (others, rest) ← members? item count rest
      some (first :: others, rest)
    | '\x7d' :: rest => some ([first], rest)
    | _ => none

/-- The object with the given members; of two with one name the later one counts. -/
def ofMembers (members : List (String × JsonValue)) : JsonValue :=
  .object (members.foldl (fun sorted (name, value) ↦ insertMember name value sorted) [])

/-- A value with at most `levels` levels of arrays and objects; blanks before it are skipped
already. -/
def value? : Nat → Read JsonValue
  | 0, cs =>
    match cs with
    | '[' :: _ => none
    | '\x7b' :: _ => none
    | cs => scalar? cs
  | levels + 1, cs =>
    match cs with
    | '[' :: rest =>
      match skipBlanks rest with
      | ']' :: rest => some (.array [], rest)
      | rest =>
        (items? (value? levels) rest.length rest).map fun (items, rest) ↦ (.array items, rest)
    | '\x7b' :: rest =>
      match skipBlanks rest with
      | '\x7d' :: rest => some (.object [], rest)
      | rest =>
        (members? (value? levels) rest.length rest).map fun (members, rest) ↦
          (ofMembers members, rest)
    | cs => scalar? cs

/-- The most levels of arrays and objects in a document. -/
def maxLevels : Nat := 127

/-- The value of a text that is one JSON document. -/
def parse? (text : String) : Option JsonValue :=
  match value? maxLevels (skipBlanks text.toList) with
  | some (value, rest) => if (skipBlanks rest).isEmpty then some value else none
  | none => none

end ColumnFormula.JsonValue
