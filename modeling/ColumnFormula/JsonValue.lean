import ColumnFormula.Number.Shortest

/-!
JSON documents in memory and as text. Whole numbers of 64 bits are kept as integers and all other
numbers in binary; the members of an object are sorted by name. `JsonValue.compact` writes without
blanks, `JsonValue.pretty` puts every item on a line of its own.
-/

set_option autoImplicit false
set_option relaxedAutoImplicit false

namespace ColumnFormula

inductive JsonValue where
  | null
  | boolean (value : Bool)
  | integer (value : Int)
  | number (value : Binary64)
  | text (content : String)
  | array (items : List JsonValue)
  | object (members : List (String × JsonValue))

namespace JsonValue

/-- Puts a member among members sorted by name; a member of the same name is replaced. -/
def insertMember (name : String) (value : JsonValue) :
    List (String × JsonValue) → List (String × JsonValue)
  | [] => [(name, value)]
  | member :: rest =>
    if name < member.1 then (name, value) :: member :: rest
    else if name = member.1 then (name, value) :: rest
    else member :: insertMember name value rest

/-! ### Text of numbers and strings -/

/-- The digits of a number that is not zero. Numbers from `1e-5` to below `1e16` are written without
an exponent, whole ones among them with `.0`. -/
def numeralText (n : Numeral) : List Char :=
  if -5 ≤ n.leadingExponent ∧ n.leadingExponent ≤ 15 then
    if 0 ≤ n.exponent then n.positional ++ ".0".toList else n.positional
  else n.scientific

/-- The text of a finite number by its shortest numeral, a halfway digit going to the even one; the
others are written as `null`. -/
def numberText : Binary64 → List Char
  | .finite negative m e h =>
    let digits := if m = 0 then "0.0".toList else numeralText (Binary64.shortest .toEven m e h)
    if negative then '-' :: digits else digits
  | _ => "null".toList

def integerText (i : Int) : List Char :=
  if i < 0 then '-' :: decimalDigits i.natAbs else decimalDigits i.natAbs

/-- A control character by its code in four hexadecimal digits. -/
def controlEscape (c : Char) : List Char :=
  '\\' :: 'u' :: '0' :: '0' :: Nat.digitChar (c.toNat / 16) :: [Nat.digitChar (c.toNat % 16)]

/-- A character as it stands in a string. -/
def escapeChar (c : Char) : List Char :=
  if c = '"' then ['\\', '"']
  else if c = '\\' then ['\\', '\\']
  else if c = '\n' then ['\\', 'n']
  else if c = '\r' then ['\\', 'r']
  else if c = '\t' then ['\\', 't']
  else if c.toNat = 8 then ['\\', 'b']
  else if c.toNat = 12 then ['\\', 'f']
  else if c.toNat < 32 then controlEscape c
  else [c]

def stringText (s : String) : List Char := '"' :: (s.toList.flatMap escapeChar ++ ['"'])

/-! ### Writing -/

/-- The parts with a separator between any two of them. -/
def join (separator : List Char) : List (List Char) → List Char
  | [] => []
  | [part] => part
  | part :: rest => part ++ separator ++ join separator rest

mutual

/-- The text without blanks. -/
def compactChars : JsonValue → List Char
  | .null => "null".toList
  | .boolean b => (toString b).toList
  | .integer i => integerText i
  | .number x => numberText x
  | .text s => stringText s
  | .array items => '[' :: (join [','] (compactItems items) ++ [']'])
  | .object members => '\x7b' :: (join [','] (compactMembers members) ++ ['\x7d'])

def compactItems : List JsonValue → List (List Char)
  | [] => []
  | item :: rest => item.compactChars :: compactItems rest

def compactMembers : List (String × JsonValue) → List (List Char)
  | [] => []
  | (name, value) :: rest =>
    (stringText name ++ ':' :: value.compactChars) :: compactMembers rest

end

/-- A line break and the indentation of a level. -/
def newline (level : Nat) : List Char := '\n' :: List.replicate (2 * level) ' '

/-- Parts between brackets, each on its own line one level further in. -/
def block (opening closing : Char) (level : Nat) (parts : List (List Char)) : List Char :=
  if parts.isEmpty then [opening, closing]
  else
    opening :: (newline (level + 1) ++ join (',' :: newline (level + 1)) parts ++ newline level ++
      [closing])

mutual

/-- The text with an item or member to a line, indented by two blanks a level. -/
def prettyChars (level : Nat) : JsonValue → List Char
  | .array items => block '[' ']' level (prettyItems (level + 1) items)
  | .object members => block '\x7b' '\x7d' level (prettyMembers (level + 1) members)
  | value => value.compactChars

def prettyItems (level : Nat) : List JsonValue → List (List Char)
  | [] => []
  | item :: rest => item.prettyChars level :: prettyItems level rest

def prettyMembers (level : Nat) : List (String × JsonValue) → List (List Char)
  | [] => []
  | (name, value) :: rest =>
    (stringText name ++ ':' :: ' ' :: value.prettyChars level) :: prettyMembers level rest

end

def compact (value : JsonValue) : String := String.ofList value.compactChars

def pretty (value : JsonValue) : String := String.ofList (value.prettyChars 0)

end JsonValue

end ColumnFormula
