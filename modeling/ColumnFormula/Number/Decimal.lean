import ColumnFormula.Number.Binary64

/-!
Decimal numbers of 96 bits: a sign, a coefficient below `2 ^ 96` and a number of decimal places of
at most 28. A binary64 number is taken over with about fifteen significant digits
(`Decimal.ofBinary64?`), so a short decimal fraction survives the way there and back. Sums,
differences, products and quotients are exact where they fit and otherwise keep as many places as
fit. The scale is part of a result, since it decides how the result turns back into binary64
(`Decimal.toBinary64`): a quotient has the scale at which long division stopped, less the zeros
that were dropped.
-/

set_option autoImplicit false
set_option relaxedAutoImplicit false

namespace ColumnFormula

/-- The least number that has more than 96 bits. -/
def Decimal.coefficientLimit : Nat := 0x1000000000000000000000000

/-- The decimal number `± coefficient / 10 ^ scale`. -/
structure Decimal where
  negative : Bool
  coefficient : Nat
  scale : Nat
  coefficient_lt : coefficient < Decimal.coefficientLimit
  scale_le : scale ≤ 28
  deriving DecidableEq

namespace Decimal

def zero (negative : Bool) : Decimal := ⟨negative, 0, 0, by decide, by decide⟩

/-- The absolute value. -/
def magnitude (d : Decimal) : Rat := (d.coefficient : Rat) / (10 : Rat) ^ d.scale

def toRat (d : Decimal) : Rat := if d.negative then -d.magnitude else d.magnitude

def neg (d : Decimal) : Decimal := { d with negative := !d.negative }

/-- The decimal with the given parts, if they are in range. -/
def ofParts? (negative : Bool) (coefficient scale : Nat) : Option Decimal :=
  if h : coefficient < coefficientLimit ∧ scale ≤ 28 then
    some ⟨negative, coefficient, scale, h.1, h.2⟩
  else none

/-! ### From and to binary64 -/

/-- Turns `m * 5 ^ n * 10 ^ k` into a coefficient and a power of ten, one factor five at a time.
When five times the coefficient no longer fits, half of it is taken and a bit may be lost. -/
def absorbFives : Nat → Nat → Int → Nat × Int
  | 0, m, k => (m, k)
  | n + 1, m, k =>
    if m % 2 = 0 then absorbFives n (m / 2) (k + 1)
    else if 5 * m < coefficientLimit then absorbFives n (5 * m) k
    else absorbFives n (m / 2) (k + 1)

/-- Turns `m / 5 ^ n * 10 ^ k` into a coefficient and a power of ten, one factor five at a time.
None when the number is sure to be out of range. -/
def releaseFives : Nat → Nat → Int → Option (Nat × Int)
  | 0, m, k => some (m, k)
  | n + 1, m, k =>
    if 2 * m < coefficientLimit then releaseFives n (2 * m) (k - 1)
    else if (n + 1 : Int) < 2 * k then none
    else releaseFives n (m / 5) k

/-- Drops the last digit, rounding half up. -/
def dropDigit (m : Nat) : Nat := if 5 ≤ m % 10 then m / 10 + 1 else m / 10

/-- Drops `excess` digits one after the other; zero needs no places. -/
def dropExcess : Nat → Nat → Nat → Nat × Nat
  | 0, m, places => (m, places)
  | excess + 1, m, places =>
    if m / 10 = 0 then (0, 0) else dropExcess excess (dropDigit m) places

/-- Drops digits behind the point until the coefficient is below `2 ^ 52`. -/
def dropPrecision : Nat → Nat → Nat × Nat
  | m, 0 => (m, 0)
  | m, places + 1 =>
    if 0x10000000000000 ≤ m then dropPrecision (dropDigit m) places else (m, places + 1)

/-- Drops zeros behind the point. -/
def dropZeros : Nat → Nat → Nat × Nat
  | m, 0 => (m, 0)
  | m, places + 1 => if m % 10 = 0 then dropZeros (m / 10) places else (m, places + 1)

/-- The coefficient and places for `m * 10 ^ k`: at most 28 places, about fifteen digits behind the
point, no trailing zeros there. -/
def shorten (m : Nat) (k : Int) : Nat × Nat :=
  if 0 ≤ k then (m * Nat.pow 10 k.toNat, 0)
  else
    let places := (-k).toNat
    let (m, places) := dropExcess (places - 28) m (min places 28)
    let (m, places) := dropPrecision m places
    dropZeros m places

/-- The decimal of a finite binary64 number, if it is in range. -/
def ofBinary64? : Binary64 → Option Decimal
  | .finite negative m e _ =>
    if m = 0 then some (zero negative)
    else do
      let (m, k) ← if e ≤ 0 then some (absorbFives (-e).toNat m e) else releaseFives e.toNat m e
      let (m, places) := shorten m k
      ofParts? negative m places
  | _ => none

/-- The binary64 number near a decimal. The whole part and the fraction are rounded on their own,
and their sum is rounded again at the last decimal place. -/
def toBinary64 (d : Decimal) : Binary64 :=
  if d.scale = 0 then .ofInt (if d.negative then -(d.coefficient : Int) else d.coefficient)
  else
    let unit := Nat.pow 10 d.scale
    let whole := Binary64.ofNat (d.coefficient / unit)
    let fraction := Binary64.ofNat (d.coefficient % unit) / Binary64.ofNat unit
    let result :=
      if fraction.isZero then whole
      else
        let power := Binary64.powerOfTen d.scale
        ((whole + fraction) * power).roundToWhole / power
    if d.negative then -result else result

/-! ### Arithmetic -/

/-- The decimal nearest to a nonnegative rational, with as many places as fit up to the given
number of them. -/
def fit? (negative : Bool) (x : Rat) : Nat → Option Decimal
  | 0 => ofParts? negative (nearest .toEven x) 0
  | places + 1 =>
    match ofParts? negative (nearest .toEven (x * 10 ^ (places + 1))) (places + 1) with
    | some d => some d
    | none => fit? negative x places

/-- A decimal for the rational `x`, with at most `places` places. -/
def ofRat? (x : Rat) (places : Nat) : Option Decimal :=
  if x < 0 then fit? true (-x) places else fit? false x places

/-- The sum; adding a zero returns the other operand as it is. -/
def add? (a b : Decimal) : Option Decimal :=
  if a.coefficient = 0 then some b
  else if b.coefficient = 0 then some a
  else ofRat? (a.toRat + b.toRat) (max a.scale b.scale)

/-- The difference; subtracting a zero returns the operand as it is. -/
def sub? (a b : Decimal) : Option Decimal :=
  if a.coefficient = 0 then some b.neg
  else if b.coefficient = 0 then some a
  else ofRat? (a.toRat - b.toRat) (max a.scale b.scale)

def mul? (a b : Decimal) : Option Decimal :=
  if a.coefficient = 0 ∨ b.coefficient = 0 then some (zero false)
  else ofRat? (a.toRat * b.toRat) (min 28 (a.scale + b.scale))

/-! ### Division -/

/-- The largest number of digits, at most `count`, that can be put behind `m` without leaving the
range of a coefficient. -/
def digitRoom (m : Nat) : Nat → Nat
  | 0 => 0
  | count + 1 =>
    if m * Nat.pow 10 (count + 1) < coefficientLimit then count + 1 else digitRoom m count

/-- The number of digits that long division of a quotient `x` develops at once when it has come to
the given scale: nine if they fit, and no zeros behind the point when nothing is left over. -/
def developedDigits (x : Rat) (scale : Int) : Nat :=
  let shifted := x * 10 ^ scale
  if shifted.den = 1 then min 9 (-scale).toNat
  else digitRoom shifted.floor.toNat (min 9 (28 - scale).toNat)

/-- The exact decimal of a nonnegative rational, if long division reaches it. The division starts
at the given scale and ends at the first scale behind the point where nothing is left over; as it
goes on by several digits at a time, zeros may follow the last digit. -/
def terminating? (negative : Bool) (x : Rat) (scale : Int) : Option Decimal :=
  let shifted := x * 10 ^ scale
  if shifted.den = 1 ∧ 0 ≤ scale then ofParts? negative shifted.num.toNat scale.toNat
  else if _ : scale < 28 ∧ 0 < developedDigits x scale then
    terminating? negative x (scale + developedDigits x scale)
  else none
termination_by (28 - scale).toNat
decreasing_by omega

/-- Drops zeros behind the point eight at a time, as long as the low 32 bits of the coefficient
are all zero. -/
def dropEightZeros (m places : Nat) : Nat × Nat :=
  if _ : 8 ≤ places ∧ m % 0x100000000 = 0 ∧ m % Nat.pow 10 8 = 0 then
    dropEightZeros (m / Nat.pow 10 8) (places - 8)
  else (m, places)
termination_by places

/-- Drops the given number of zeros behind the point, if there are so many. -/
def dropGroup (count : Nat) : Nat × Nat → Nat × Nat
  | (m, places) =>
    if count ≤ places ∧ m % Nat.pow 10 count = 0 then (m / Nat.pow 10 count, places - count)
    else (m, places)

/-- Drops zeros behind the point in groups of eight, four, two and one. Of each of the last three
sizes one group goes at most, so a zero stays when there are eight and the coefficient is no
multiple of `2 ^ 32`. -/
def dropZeroGroups (d : Decimal) : Option Decimal :=
  let (m, places) := dropGroup 1 (dropGroup 2 (dropGroup 4 (dropEightZeros d.coefficient d.scale)))
  ofParts? d.negative m places

/-- The quotient: exact where long division ends, and otherwise rounded at the last place that
fits. -/
def div? (a b : Decimal) : Option Decimal :=
  if b.coefficient = 0 then none
  else if a.coefficient = 0 then some (zero false)
  else
    let negative := a.negative != b.negative
    let x := a.magnitude / b.magnitude
    let quotient := (terminating? negative x ((a.scale : Int) - b.scale)).or (fit? negative x 28)
    quotient.bind dropZeroGroups

/-! ### Rounding to places -/

/-- Rounds to at most the given number of places, halves away from zero; a zero result is
positive. -/
def round (d : Decimal) (places : Nat) : Decimal :=
  if h : d.scale ≤ places then d
  else
    let m := nearestQuotient .away d.coefficient (Nat.pow 10 (d.scale - places))
    ⟨d.negative && m != 0, m, places, by
      have hpow : 10 ≤ Nat.pow 10 (d.scale - places) := Nat.le_self_pow (by omega) 10
      have hquotient : d.coefficient / Nat.pow 10 (d.scale - places) ≤ d.coefficient / 10 :=
        Nat.div_le_div_left hpow (by decide)
      have hrounded := nearestQuotient_le .away d.coefficient (Nat.pow 10 (d.scale - places))
      have hbound := d.coefficient_lt
      unfold coefficientLimit at hbound ⊢
      omega, by
      have hscale := d.scale_le
      omega⟩

end Decimal

end ColumnFormula
