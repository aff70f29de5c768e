import ColumnFormula.Number.Rounding

/-!
Binary floating point with 53 significant bits, in exact arithmetic. A finite number is a sign, a
significand and an exponent in the one standard form, so two numbers are equal as data exactly when
they have the same bits; there is a single not-a-number. Each operation takes the exact rational
result of its operands and rounds it once, to the nearest number and at a tie to the even
significand (`Binary64.ofMagnitude`).
-/

set_option autoImplicit false
set_option relaxedAutoImplicit false

namespace ColumnFormula

/-- The standard form of a finite number `significand * 2 ^ exponent`: 53 bits at most, an exponent
in range, and a leading bit set unless the exponent is the least one. -/
def StandardForm (significand : Nat) (exponent : Int) : Prop :=
  significand < 0x20000000000000 ∧ -1074 ≤ exponent ∧ exponent ≤ 971 ∧
    (0x10000000000000 ≤ significand ∨ exponent = -1074)

instance (significand : Nat) (exponent : Int) : Decidable (StandardForm significand exponent) := by
  unfold StandardForm
  infer_instance

/-- A binary64 number. -/
inductive Binary64 where
  | nan
  | infinity (negative : Bool)
  | finite (negative : Bool) (significand : Nat) (exponent : Int)
      (standard : StandardForm significand exponent)
  deriving DecidableEq

namespace Binary64

/-! ### Values -/

/-- Zero with the given sign. -/
def zero (negative : Bool) : Binary64 :=
  .finite negative 0 (-1074) (by decide)

instance : Inhabited Binary64 := ⟨zero false⟩

/-- The sign bit; not-a-number counts as positive. -/
def isNegative : Binary64 → Bool
  | .nan => false
  | .infinity negative => negative
  | .finite negative _ _ _ => negative

def isFinite : Binary64 → Bool
  | .finite .. => true
  | _ => false

/-- The absolute value of a finite number as a rational; zero for the others. -/
def magnitude : Binary64 → Rat
  | .finite _ m e _ => (m : Rat) * 2 ^ e
  | _ => 0

/-- The value of a finite number as a rational; zero for the others. -/
def toRat (x : Binary64) : Rat :=
  if x.isNegative then -x.magnitude else x.magnitude

/-! ### Rounding -/

/-- The binary exponent of a positive rational: `2 ^ k ≤ x < 2 ^ (k + 1)`. -/
def binaryExponent (x : Rat) : Int :=
  let k : Int := (x.num.natAbs.log2 : Int) - x.den.log2
  if x < 2 ^ k then k - 1 else k

/-- The exponent of the last significand bit of the numbers around a positive rational. -/
def unitExponent (x : Rat) : Int :=
  max (binaryExponent x - 52) (-1074)

/-- The number nearest to a nonnegative rational, with the given sign. Rounding up may carry into
the next binade, which halves the significand; past the largest exponent the result is infinite. -/
def ofMagnitude (negative : Bool) (x : Rat) : Binary64 :=
  if x = 0 then zero negative
  else
    let e := unitExponent x
    let m := nearest .toEven (x / 2 ^ e)
    if h : StandardForm m e then .finite negative m e h
    else if h : StandardForm (m / 2) (e + 1) then .finite negative (m / 2) (e + 1) h
    else .infinity negative

/-- The number nearest to a rational; zero is positive. -/
def ofRat (x : Rat) : Binary64 :=
  if x < 0 then ofMagnitude true (-x) else ofMagnitude false x

def ofNat (n : Nat) : Binary64 := ofRat n

def ofInt (i : Int) : Binary64 := ofRat i

/-- The number nearest to `± coefficient * 10 ^ exponent`. A power of ten far outside the range is
not computed: the result is then infinite or zero whatever the digits are. -/
def ofDecimal (negative : Bool) (coefficient : Nat) (exponent : Int) : Binary64 :=
  if coefficient = 0 then zero negative
  else if 400 < exponent then .infinity negative
  else if exponent + coefficient.log2 < -400 then zero negative
  else ofMagnitude negative ((coefficient : Rat) * 10 ^ exponent)

/-! ### Arithmetic -/

def neg : Binary64 → Binary64
  | .nan => .nan
  | .infinity negative => .infinity (!negative)
  | .finite negative m e h => .finite (!negative) m e h

def abs : Binary64 → Binary64
  | .nan => .nan
  | .infinity _ => .infinity false
  | .finite _ m e h => .finite false m e h

/-- Addition. An exact zero is negative only when both operands are. -/
def add : Binary64 → Binary64 → Binary64
  | .nan, _ => .nan
  | _, .nan => .nan
  | .infinity a, .infinity b => if a = b then .infinity a else .nan
  | .infinity a, .finite .. => .infinity a
  | .finite .., .infinity b => .infinity b
  | x@(.finite ..), y@(.finite ..) =>
    let sum := x.toRat + y.toRat
    if sum = 0 then zero (x.isNegative && y.isNegative) else ofRat sum

def sub (x y : Binary64) : Binary64 := add x y.neg

/-- Multiplication. The sign is the exclusive or of the signs, also for a zero. -/
def mul : Binary64 → Binary64 → Binary64
  | .nan, _ => .nan
  | _, .nan => .nan
  | .infinity a, .infinity b => .infinity (a != b)
  | .infinity a, .finite b m _ _ => if m = 0 then .nan else .infinity (a != b)
  | .finite a m _ _, .infinity b => if m = 0 then .nan else .infinity (a != b)
  | x@(.finite ..), y@(.finite ..) =>
    ofMagnitude (x.isNegative != y.isNegative) (x.magnitude * y.magnitude)

/-- Division. A nonzero number divided by zero is infinite, zero by zero is not a number. -/
def div : Binary64 → Binary64 → Binary64
  | .nan, _ => .nan
  | _, .nan => .nan
  | .infinity _, .infinity _ => .nan
  | .infinity a, .finite b _ _ _ => .infinity (a != b)
  | .finite a _ _ _, .infinity b => zero (a != b)
  | x@(.finite a m _ _), y@(.finite b n _ _) =>
    if n = 0 then if m = 0 then .nan else .infinity (a != b)
    else ofMagnitude (a != b) (x.magnitude / y.magnitude)

instance : Neg Binary64 := ⟨neg⟩
instance : Add Binary64 := ⟨add⟩
instance : Sub Binary64 := ⟨sub⟩
instance : Mul Binary64 := ⟨mul⟩
instance : Div Binary64 := ⟨div⟩

/-- The nearest whole number, halves away from zero; the sign stays, also on a zero. -/
def roundToWhole : Binary64 → Binary64
  | x@(.finite negative _ e _) =>
    if 0 ≤ e then x else ofMagnitude negative (nearest .away x.magnitude)
  | x => x

/-- Repeated squaring in floating point: `product` times `base ^ k`, rounded at every step. -/
def powerLoop (k : Nat) (base product : Binary64) : Binary64 :=
  if k = 0 then product
  else
    let product := if k % 2 = 1 then product * base else product
    if k / 2 = 0 then product else powerLoop (k / 2) (base * base) product
termination_by k
decreasing_by omega

/-- Ten to the power `k` by repeated squaring in floating point. -/
def powerOfTen (k : Nat) : Binary64 := powerLoop k (ofNat 10) (ofNat 1)

/-! ### Comparison -/

/-- The order of two numbers; none when either is not a number. Both zeros are equal. -/
def compare? : Binary64 → Binary64 → Option Ordering
  | .nan, _ => none
  | _, .nan => none
  | .infinity a, .infinity b => some (if a = b then .eq else if a then .lt else .gt)
  | .infinity a, .finite .. => some (if a then .lt else .gt)
  | .finite .., .infinity b => some (if b then .gt else .lt)
  | x@(.finite ..), y@(.finite ..) =>
    some (if x.toRat < y.toRat then .lt else if x.toRat = y.toRat then .eq else .gt)

/-- Numeric equality: not-a-number equals nothing, the zeros equal each other. -/
def numEq (x y : Binary64) : Bool := compare? x y == some .eq

/-- Numeric "at most": false when either is not a number. -/
def numLe (x y : Binary64) : Bool :=
  match compare? x y with
  | some .lt => true
  | some .eq => true
  | _ => false

def isZero : Binary64 → Bool
  | .finite _ m _ _ => m == 0
  | _ => false

/-! ### Whole numbers -/

/-- A finite number without a fractional part. -/
def isWhole : Binary64 → Bool
  | x@(.finite ..) => x.toRat.den == 1
  | _ => false

/-- The value without its fraction, kept between `lo` and `hi`; not-a-number gives zero. -/
def truncateClamped (lo hi : Int) : Binary64 → Int
  | .nan => 0
  | .infinity negative => if negative then lo else hi
  | x@(.finite negative _ _ _) =>
    let whole := x.magnitude.floor
    max lo (min hi (if negative then -whole else whole))

end Binary64

end ColumnFormula
