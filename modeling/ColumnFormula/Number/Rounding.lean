/-!
Rounding to a whole number. Every rounding of the library is one of the two here, taken on a
suitable grid: the significand of a binary number, the last kept digit of a decimal, the last digit
of a printed numeral. The two tie rules differ at a point exactly halfway between two whole numbers
and nowhere else.
-/

set_option autoImplicit false
set_option relaxedAutoImplicit false

namespace ColumnFormula

/-- Where a point halfway between two whole numbers goes: to the even one, or away from zero. -/
inductive Tie where
  | toEven
  | away
  deriving DecidableEq, Repr

/-- The choice at a halfway point above `lower`. -/
def Tie.resolve (tie : Tie) (lower : Nat) : Nat :=
  match tie with
  | .toEven => lower + lower % 2
  | .away => lower + 1

theorem Tie.resolve_le (tie : Tie) (lower : Nat) : tie.resolve lower ≤ lower + 1 := by
  cases tie with
  | toEven => simp only [Tie.resolve]; omega
  | away => exact Nat.le_refl _

/-- The whole number nearest to a nonnegative rational, a halfway point going as `tie` says. -/
def nearest (tie : Tie) (x : Rat) : Nat :=
  let lower := x.floor.toNat
  let rest := x - lower
  if rest < 1 / 2 then lower
  else if 1 / 2 < rest then lower + 1
  else tie.resolve lower

/-- Division of naturals rounded to the nearest quotient. -/
def nearestQuotient (tie : Tie) (a b : Nat) : Nat :=
  if 2 * (a % b) < b then a / b
  else if b < 2 * (a % b) then a / b + 1
  else tie.resolve (a / b)

theorem nearestQuotient_le (tie : Tie) (a b : Nat) : nearestQuotient tie a b ≤ a / b + 1 := by
  unfold nearestQuotient
  split
  · exact Nat.le_succ _
  · split
    · exact Nat.le_refl _
    · exact tie.resolve_le _

end ColumnFormula
