import ColumnFormula.Number.Binary64

/-!
Decimal numerals: a coefficient and a power of ten, with the forms in which they are read and
written. `Numeral.positional` writes all places out, `Numeral.scientific` writes one digit before
the point and an exponent. Reading is by maximal runs of the ten ASCII digits.
-/

set_option autoImplicit false
set_option relaxedAutoImplicit false

namespace ColumnFormula

/-- The decimal number `coefficient * 10 ^ exponent`. -/
structure Numeral where
  coefficient : Nat
  exponent : Int
  deriving DecidableEq, Repr

/-- The decimal digits of a natural number, most significant first. -/
def decimalDigits (n : Nat) : List Char := Nat.toDigits 10 n

/-- The number that a run of decimal digits denotes. -/
def ofDecimalDigits (digits : List Char) : Nat := Nat.ofDigitChars 10 digits 0

theorem ofDecimalDigits_decimalDigits (n : Nat) : ofDecimalDigits (decimalDigits n) = n :=
  Nat.ofDigitChars_toDigits (by decide) (by decide)

theorem isDigit_of_mem_decimalDigits {n : Nat} {c : Char} (h : c ∈ decimalDigits n) :
    c.isDigit = true :=
  Nat.isDigit_of_mem_toDigits (by decide) (by decide) h

namespace Numeral

def toRat (n : Numeral) : Rat := (n.coefficient : Rat) * 10 ^ n.exponent

/-- The binary64 number nearest to a numeral. -/
def toBinary64 (negative : Bool) (n : Numeral) : Binary64 :=
  .ofDecimal negative n.coefficient n.exponent

/-- Moves trailing zeros of the coefficient into the exponent. -/
def strip (n : Numeral) : Numeral :=
  if n.coefficient = 0 then n
  else if n.coefficient % 10 = 0 then strip ⟨n.coefficient / 10, n.exponent + 1⟩
  else n
termination_by n.coefficient
decreasing_by omega

/-- All places written out, without an exponent; a point only if there is a fraction. -/
def positional (n : Numeral) : List Char :=
  let digits := decimalDigits n.coefficient
  if 0 ≤ n.exponent then digits ++ List.replicate n.exponent.toNat '0'
  else
    let places := (-n.exponent).toNat
    if places < digits.length then
      digits.take (digits.length - places) ++ '.' :: digits.drop (digits.length - places)
    else '0' :: '.' :: (List.replicate (places - digits.length) '0' ++ digits)

/-- The power of ten of the leading digit. -/
def leadingExponent (n : Numeral) : Int :=
  n.exponent + (decimalDigits n.coefficient).length - 1

/-- One digit, then the others behind a point, then the exponent with its sign. -/
def scientific (n : Numeral) : List Char :=
  let e := n.leadingExponent
  let exponent := 'e' :: (if e < 0 then '-' else '+') :: decimalDigits e.natAbs
  match decimalDigits n.coefficient with
  | [] => exponent
  | [d] => d :: exponent
  | d :: rest => d :: '.' :: (rest ++ exponent)

/-- A numeral from the digits before and after the point. -/
def ofDigits (whole fraction : List Char) : Numeral :=
  ⟨ofDecimalDigits (whole ++ fraction), -(fraction.length : Int)⟩

/-- Shifts by a power of ten. -/
def scale (n : Numeral) (k : Int) : Numeral := ⟨n.coefficient, n.exponent + k⟩

end Numeral

/-- A leading run of decimal digits and what follows it. -/
def spanDigits (cs : List Char) : List Char × List Char :=
  cs.span Char.isDigit

/-- Digits with at most one point that is followed by a digit, and nothing else: `12`, `3.5`,
`.5`. -/
def readPlainNumeral? (cs : List Char) : Option Numeral :=
  let (whole, rest) := spanDigits cs
  match rest with
  | [] => if whole.isEmpty then none else some (.ofDigits whole [])
  | '.' :: rest =>
    let (fraction, rest) := spanDigits rest
    if fraction.isEmpty || !rest.isEmpty then none else some (.ofDigits whole fraction)
  | _ => none

/-- An optional sign and what follows it; true for a minus. -/
def readSign : List Char → Bool × List Char
  | '-' :: rest => (true, rest)
  | '+' :: rest => (false, rest)
  | rest => (false, rest)

/-- The power of ten written behind the digits: nothing, or `e` or `E`, a sign and digits. -/
def readExponent? : List Char → Option Int
  | [] => some 0
  | c :: rest =>
    if c = 'e' ∨ c = 'E' then
      let (negative, rest) := readSign rest
      let (digits, rest) := spanDigits rest
      if digits.isEmpty || !rest.isEmpty then none
      else
        let k : Int := ofDecimalDigits digits
        some (if negative then -k else k)
    else none

/-- A signed numeral with an optional exponent; digits may be missing on one side of the point:
`-1.5`, `+2.`, `.5e-3`. The flag is true for a minus. -/
def readNumeral? (cs : List Char) : Option (Bool × Numeral) :=
  let (negative, cs) := readSign cs
  let (whole, rest) := spanDigits cs
  let (fraction, rest) := match rest with
    | '.' :: rest => spanDigits rest
    | rest => ([], rest)
  if whole.isEmpty && fraction.isEmpty then none
  else (readExponent? rest).map fun k ↦ (negative, (Numeral.ofDigits whole fraction).scale k)

end ColumnFormula
