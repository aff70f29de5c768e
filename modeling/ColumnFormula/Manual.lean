import ColumnFormula.Builtin
import ColumnFormula.Text.LowerCase

/-!
The manual of the command line: an overview and one page per category. The page of functions is
made from the table of built-in functions.
-/

set_option autoImplicit false
set_option relaxedAutoImplicit false

namespace ColumnFormula

inductive ManualPage where
  | syntaxRules
  | operators
  | functions
  | types
  | scripts
  deriving DecidableEq, Repr

namespace ManualPage

/-- The names under which a page is found. -/
def names : ManualPage → List String
  | .syntaxRules => ["syntax"]
  | .operators => ["operators", "ops"]
  | .functions => ["functions", "function", "funcs"]
  | .types => ["types", "type", "coercion"]
  | .scripts => ["scripts", "script", "statements"]

def all : List ManualPage := [.syntaxRules, .operators, .functions, .types, .scripts]

/-- The page with the given name, in any letter case and with hyphens for underscores. -/
def ofName? (name : String) : Option ManualPage :=
  let key := (lowerText name.toList).map fun c ↦ if c = '-' then '_' else c
  all.find? fun page ↦ page.names.contains (String.ofList key)

/-- The list of pages and a short reference. -/
def overview : String :=
  r#"CCL DOCUMENTATION

CCL (Column Calculation Language) derives a new column of a dataset from a
formula over the other columns. The formula is evaluated once per row.

DOCUMENTATION CATEGORIES

  syntax            Column references, literals, and grouping
  operators         Arithmetic, concatenation, comparison, and logical operators
  functions         Built-in functions such as IF and ROUND
  types             Value types, nil handling, and coercion rules
  scripts           Assignments, NEW(...) columns, and multi-statement scripts

QUICK REFERENCE

  A, B, AA          Column by spreadsheet letter
  price             Column by name
  [Unit Price]      Column by name with spaces or symbols
  #0                Column by zero-based index
  'text' "text"     String literals
  10 < A < 20       Chained comparison

Run 'ccl doc <category>' for detailed documentation.
"#

def syntaxText : String :=
  r#"SYNTAX - Column References and Literals

COLUMN LETTERS
  A, B, ..., Z, AA, AB, ...
    Spreadsheet-style position. A is the first column.
    A letter sequence always refers to the position, even if some other
    column is named "A".

COLUMN NAMES
  price
    A bare identifier that is not a letter sequence is looked up by name.
  [Unit Price]
    Brackets allow any name that is not a valid identifier.

COLUMN INDEX
  #3
    Zero-based position.

  Unknown names fail before any row is evaluated.

LITERALS
  42  3.5  .5           Numbers
  'text'  "text"        Strings; the other quote type may appear inside
  true  false  nil      Keywords

GROUPING
  (A + B) * 2
"#

def operatorsText : String :=
  r#"OPERATORS - Lowest to Highest Precedence

  ||                    Logical OR (short-circuit)
  &&                    Logical AND (short-circuit)
  == != < <= > >=       Comparison
  &                     Text concatenation
  + -                   Addition, subtraction
  * /                   Multiplication, division
  -x                    Negation

CHAINED COMPARISON
  10 < A < 20
    Means (10 < A) && (A < 20), with A evaluated once.
  0 <= A <= 100
    Inclusive bounds.

LOGICAL OPERANDS
  && and || require boolean operands, typically comparisons.
"#

def typesText : String :=
  r#"TYPES - Values and Coercion

VALUES
  nil, boolean, number, text

ARITHMETIC (+ - * /)
  nil counts as 0            nil + 10  =>  10
  numeric text is a number   "5" * 2   =>  10
  other text is an error     "abc" + 1 =>  type error
  x / 0 yields infinity

CONCATENATION (&)
  Both sides are rendered as text; nil renders as <nil>.
    'Value: ' & nil  =>  "Value: <nil>"

EQUALITY (== !=)
  nil == nil is true; nil equals nothing else.
  Numbers and numeric text compare as numbers: "10" == 10 is true.
  Anything else compares by text.

ORDERING (< <= > >=)
  Any nil operand makes the comparison false, even nil < 5.
  Numbers and numeric text compare as numbers, anything else as text.
"#

def scriptsText : String :=
  r#"SCRIPTS - Statements

EXPRESSION
  A * 2
    The value becomes the derived column (ccl eval --name NAME).

ASSIGNMENT
  B = A * 2
    Overwrites an existing column row by row.

NEW COLUMN
  NEW('total') = A + B
    Creates a column; later statements can read it by name.

MULTIPLE STATEMENTS
  Separate statements with ';' or newlines. Separators inside quotes or
  brackets do not split.

    NEW('label') = 'a;b'; B = label & '!'
"#

/-- What a function does, in a few words. -/
def functionSummary : Builtin → String
  | .ifThenElse => "Evaluates only the selected branch"
  | .ifNil => "value, or fallback when value is nil"
  | .and => "True when every argument is true"
  | .or => "True when any argument is true"
  | .not => "Boolean negation"
  | .isNil => "True when the value is nil"
  | .concat => "Joins the text forms of all arguments"
  | .abs => "Absolute value"
  | .round => "Rounds half away from zero"
  | .len => "Character count of the text form"
  | .upper => "Upper-cased text form"
  | .lower => "Lower-cased text form"

/-- The text with blanks behind it, `width` characters at least. -/
def padRight (width : Nat) (s : String) : String :=
  s ++ String.ofList (List.replicate (width - s.length) ' ')

/-- One line for each function: its signature in a column of its own, then its summary. -/
def functionsText : String :=
  "FUNCTIONS - Built-ins (names are case-insensitive)\n\n" ++
    String.join (Builtin.all.map fun f ↦ s!"  {padRight 28 f.signature}{functionSummary f}\n") ++
    "\nUnknown functions and wrong argument counts fail at evaluation.\n"

def text : ManualPage → String
  | .syntaxRules => syntaxText
  | .operators => operatorsText
  | .functions => functionsText
  | .types => typesText
  | .scripts => scriptsText

end ManualPage

/-- No page of the manual has the given name. -/
structure UnknownPage where
  name : String

def UnknownPage.message (e : UnknownPage) : String :=
  s!"Unknown category: '{e.name}'\nRun 'ccl docs' to see available categories."

/-- The page of the manual with the given name. -/
def manualText (name : String) : Except UnknownPage String :=
  match ManualPage.ofName? name with
  | some page => .ok page.text
  | none => .error ⟨name⟩

end ColumnFormula
