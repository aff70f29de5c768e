import ColumnFormula.Number.Numeral

/-!
The shortest decimal numeral of a binary64 number. Among the numerals with the fewest digits that
read back as the number, the nearest one is taken; two equally near ones are told apart by a given
tie rule. The search tests the two neighbours of the number on the grids of one digit, two digits
and so on. Seventeen digits always suffice; the exact expansion closes the search, so that the
result reads back whatever the search does.
-/

set_option autoImplicit false
set_option relaxedAutoImplicit false

namespace ColumnFormula.Binary64

/-- The power of ten of the leading decimal digit of a positive rational. -/
def decimalExponent (x : Rat) : Int :=
  let k : Int := ((decimalDigits x.num.natAbs).length : Int) - (decimalDigits x.den).length
  if x < 10 ^ k then k - 1 else k

/-- All digits of `significand * 2 ^ exponent`, which is always a finite decimal. -/
def exactNumeral (significand : Nat) (exponent : Int) : Numeral :=
  if 0 ≤ exponent then ⟨significand * Nat.pow 2 exponent.toNat, 0⟩
  else ⟨significand * Nat.pow 5 (-exponent).toNat, exponent⟩

/-- The numeral on the grid `10 ^ k` that reads back as `target` and is nearest to `x`. -/
def gridNumeral? (tie : Tie) (target : Binary64) (x : Rat) (k : Int) : Option Numeral :=
  let scaled := x / 10 ^ k
  let below : Numeral := ⟨scaled.floor.toNat, k⟩
  let above : Numeral := ⟨scaled.floor.toNat + 1, k⟩
  let closest : Numeral := ⟨nearest tie scaled, k⟩
  if closest.toBinary64 false = target then some closest
  else if below.toBinary64 false = target then some below
  else if above.toBinary64 false = target then some above
  else none

/-- The first hit on the grids `10 ^ k`, `10 ^ (k - 1)`, and so on, `count` of them. -/
def searchGrids (tie : Tie) (target : Binary64) (x : Rat) : Nat → Int → Option Numeral
  | 0, _ => none
  | count + 1, k =>
    match gridNumeral? tie target x k with
    | some n => some n
    | none => searchGrids tie target x count (k - 1)

/-- The shortest numeral for the magnitude of a finite number. -/
def shortest (tie : Tie) (significand : Nat) (exponent : Int)
    (standard : StandardForm significand exponent) : Numeral :=
  if significand = 0 then ⟨0, 0⟩
  else
    let target : Binary64 := .finite false significand exponent standard
    let x := target.magnitude
    match searchGrids tie target x 17 (decimalExponent x) with
    | some n => n.strip
    | none => exactNumeral significand exponent

/-- The shortest numeral, written out without an exponent; a halfway digit is rounded up. The
infinities are `inf` and `-inf`, and not-a-number is `NaN`. -/
def text : Binary64 → String
  | .nan => "NaN"
  | .infinity negative => if negative then "-inf" else "inf"
  | .finite negative m e h =>
    let digits := (shortest .away m e h).positional
    String.ofList (if negative then '-' :: digits else digits)

/-- The number of digits of the shortest numeral; zero for a number without one. -/
def digitCount : Binary64 → Nat
  | .finite _ m e h => (decimalDigits (shortest .away m e h).coefficient).length
  | _ => 0

/-- Reads a numeral, or one of the words that `text` writes for the other numbers. -/
def ofText? (s : String) : Option Binary64 :=
  match s with
  | "inf" => some (.infinity false)
  | "-inf" => some (.infinity true)
  | "NaN" => some .nan
  | _ => (readNumeral? s.toList).map fun (negative, n) ↦ n.toBinary64 negative

end ColumnFormula.Binary64
