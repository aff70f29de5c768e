import ColumnFormula.Proofs.Number.DecimalForm
import ColumnFormula.Proofs.Number.Magnitude
import ColumnFormula.Value.Functions

/-!
# Rounding to decimal places

What `roundTo` does to a finite number when no places before the point are asked for. It rounds the
decimal of the number, so every statement is about `Binary64.decimalValue`, and this value is close
to the number (`RoundsDecimal.close`). With respect to it rounding is what it should be
(`roundsDecimal_of_isFinite`): less than half a unit of the last place becomes zero, and rounding to
whole numbers gives a nearest one, halves away from zero. The last step, from the rounded decimal
back to binary, adds no error there, because the coefficient has 53 bits at most or is the number
itself (`Binary64.decimal_cases`).

With respect to the number the same fails next to a half, where the decimal has been rounded to the
half already (`roundTo_below_half`).
-/

set_option autoImplicit false
set_option relaxedAutoImplicit false

namespace ColumnFormula

/-- A quotient rounded half away from zero is above the exact one by a half at most, and below it by
less than a half. -/
theorem nearestQuotient_away_spec {a b : Nat} (hb : 0 < b) :
    (nearestQuotient .away a b : Rat) ≤ a / b + 1 / 2 ∧
      (a : Rat) / b < nearestQuotient .away a b + 1 / 2 := by
  have hnat : 2 * (b * nearestQuotient .away a b) ≤ 2 * a + b ∧
      2 * a < 2 * (b * nearestQuotient .away a b) + b := by
    have hsplit : b * (a / b) + a % b = a := Nat.div_add_mod a b
    have hrest : a % b < b := Nat.mod_lt a hb
    have hnext : b * (a / b + 1) = b * (a / b) + b := by ring
    unfold nearestQuotient
    split
    · omega
    · split
      · omega
      · rw [Tie.resolve]
        omega
  have hupper : 2 * ((b : Rat) * nearestQuotient .away a b) ≤ 2 * a + b := by exact_mod_cast hnat.1
  have hlower : 2 * (a : Rat) < 2 * (b * nearestQuotient .away a b) + b := by exact_mod_cast hnat.2
  have hb' : (0 : Rat) < b := by exact_mod_cast hb
  constructor
  · rw [← sub_le_iff_le_add, le_div_iff₀ hb']
    linarith
  · rw [div_lt_iff₀ hb']
    linarith

/-- A sign does not change an absolute value. -/
theorem abs_signed (negative : Bool) {a : Rat} (h : 0 ≤ a) :
    |if negative then -a else a| = a := by
  split
  · rw [abs_neg, abs_of_nonneg h]
  · exact abs_of_nonneg h

/-- Two numbers of one sign are as far apart as their absolute values. -/
theorem abs_signed_sub (negative : Bool) (a b : Rat) :
    |(if negative then -a else a) - if negative then -b else b| = |a - b| := by
  split
  · rw [neg_sub_neg, abs_sub_comm]
  · rfl

namespace Decimal

/-! ### Rounding a decimal -/

theorem magnitude_nonneg (d : Decimal) : 0 ≤ d.magnitude := by
  unfold magnitude
  positivity

theorem abs_toRat (d : Decimal) : |d.toRat| = d.magnitude :=
  abs_signed d.negative d.magnitude_nonneg

/-- What rounding does: nothing where the places are there, and else a division by a power of ten
that keeps the sign of anything but zero. -/
theorem round_cases (d : Decimal) (places : Nat) :
    d.scale ≤ places ∧ d.round places = d ∨
      ∃ dropped, 0 < dropped ∧ d.scale = dropped + places ∧ (d.round places).scale = places ∧
        (d.round places).coefficient = nearestQuotient .away d.coefficient (10 ^ dropped) ∧
        ((d.round places).negative = d.negative ∨ (d.round places).coefficient = 0) := by
  by_cases hscale : d.scale ≤ places
  · exact .inl ⟨hscale, dif_pos hscale⟩
  · refine .inr ⟨d.scale - places, by omega, by omega, ?_⟩
    rw [round, dif_neg hscale]
    refine ⟨rfl, rfl, ?_⟩
    dsimp only
    rcases Nat.eq_zero_or_pos (nearestQuotient .away d.coefficient
      (Nat.pow 10 (d.scale - places))) with hzero | hpos
    · exact .inr hzero
    · exact .inl (by rw [bne_iff_ne.mpr hpos.ne', Bool.and_true])

/-- Rounding to places is an error of half a unit of the last place at most, and a half goes away
from zero. -/
theorem magnitude_round (d : Decimal) (places : Nat) :
    (d.round places).magnitude ≤ d.magnitude + 1 / 2 / 10 ^ places ∧
      d.magnitude < (d.round places).magnitude + 1 / 2 / 10 ^ places := by
  have hhalf : (0 : Rat) < 1 / 2 / 10 ^ places := by positivity
  rcases d.round_cases places with ⟨-, hsame⟩ | ⟨dropped, -, hdropped, hscale, hcoefficient, -⟩
  · rw [hsame]
    constructor <;> linarith
  · have hunit : (0 : Rat) < 10 ^ places := by positivity
    have hexact : d.magnitude = (d.coefficient : Rat) / (10 ^ dropped : Nat) / 10 ^ places := by
      rw [magnitude, hdropped, pow_add, div_div]
      push_cast
      rfl
    obtain ⟨hupper, hlower⟩ := nearestQuotient_away_spec (a := d.coefficient)
      (by positivity : 0 < 10 ^ dropped)
    rw [hexact, magnitude, hscale, hcoefficient, ← add_div, ← add_div]
    exact ⟨div_le_div_of_nonneg_right hupper hunit.le, div_lt_div_of_pos_right hlower hunit⟩

/-- A decimal that is smaller than half a unit of the last place becomes zero. -/
theorem coefficient_round_eq_zero {d : Decimal} {places : Nat}
    (h : d.magnitude < 1 / 2 / 10 ^ places) : (d.round places).coefficient = 0 := by
  have hround := (d.magnitude_round places).1
  have hscale : (d.round places).scale ≤ places := by
    rcases d.round_cases places with ⟨hle, hsame⟩ | ⟨_, -, -, hscale, -⟩
    · rwa [hsame]
    · exact hscale.le
  have hunit : (1 : Rat) / 10 ^ places ≤ 1 / 10 ^ (d.round places).scale :=
    one_div_ten_pow_le hscale
  have hsmall : (d.round places).magnitude < 1 / 10 ^ (d.round places).scale := by
    have htwo : (1 : Rat) / 2 / 10 ^ places + 1 / 2 / 10 ^ places = 1 / 10 ^ places := by ring
    linarith
  rw [magnitude, div_lt_div_iff_of_pos_right (by positivity)] at hsmall
  exact Nat.lt_one_iff.mp (by exact_mod_cast hsmall)

/-- Rounding keeps the sign, except that a zero may lose it. -/
theorem abs_toRat_round_sub (d : Decimal) (places : Nat) :
    |(d.round places).toRat - d.toRat| = |(d.round places).magnitude - d.magnitude| := by
  have hsign : (d.round places).negative = d.negative ∨ (d.round places).coefficient = 0 := by
    rcases d.round_cases places with ⟨-, hsame⟩ | ⟨_, -, -, -, -, hsign⟩
    · rw [hsame]
      exact .inl rfl
    · exact hsign
  rcases hsign with hsame | hzero
  · rw [toRat, toRat, hsame, abs_signed_sub]
  · have hmagnitude : (d.round places).magnitude = 0 := by
      rw [magnitude, hzero, Nat.cast_zero, zero_div]
    have htoRat : (d.round places).toRat = 0 := by
      rw [toRat, hmagnitude, neg_zero, ite_self]
    rw [htoRat, hmagnitude, zero_sub, zero_sub, abs_neg, abs_neg, abs_toRat,
      abs_of_nonneg d.magnitude_nonneg]

/-- A coefficient of at most 53 bits stays one, since a digit at least is dropped. -/
theorem coefficient_round_le {d : Decimal} (h : d.coefficient ≤ 0x20000000000000) (places : Nat) :
    (d.round places).coefficient ≤ 0x20000000000000 := by
  rcases d.round_cases places with ⟨-, hsame⟩ | ⟨dropped, hpos, -, -, hcoefficient, -⟩
  · rwa [hsame]
  · have hpower : 10 ≤ 10 ^ dropped := Nat.le_self_pow hpos.ne' 10
    have hquotient : d.coefficient / 10 ^ dropped ≤ d.coefficient / 10 :=
      Nat.div_le_div_left hpower (by decide)
    have hrounded := nearestQuotient_le .away d.coefficient (10 ^ dropped)
    omega

/-- Rounding to whole numbers leaves no places. -/
theorem scale_round_zero (d : Decimal) : (d.round 0).scale = 0 := by
  rcases d.round_cases 0 with ⟨hscale, hsame⟩ | ⟨_, -, -, hscale, -⟩
  · rw [hsame]
    exact Nat.le_zero.mp hscale
  · exact hscale

/-! ### Back to binary -/

theorem isZero_toBinary64 {d : Decimal} (h : d.coefficient = 0) : d.toBinary64.isZero = true := by
  rw [toBinary64, h]
  split
  · have hinteger : ∀ negative : Bool,
        (Binary64.ofInt (if negative then -((0 : Nat) : Int) else (0 : Nat))).isZero = true := by
      decide +kernel
    exact hinteger d.negative
  · -- The fraction is zero at every scale, so there is no second rounding.
    have hfraction : ∀ scale ≤ 28,
        (Binary64.ofNat 0 / Binary64.ofNat (Nat.pow 10 scale)).isZero = true := by decide +kernel
    have hwhole : (Binary64.ofNat 0).isZero = true ∧ (-Binary64.ofNat 0).isZero = true := by
      decide +kernel
    dsimp only
    rw [Nat.zero_div, Nat.zero_mod, if_pos (hfraction d.scale d.scale_le)]
    split
    · exact hwhole.2
    · exact hwhole.1

/-- A whole decimal that is a binary number is not changed. -/
theorem toBinary64_of_hasWhole {d : Decimal} (hscale : d.scale = 0)
    (h : Binary64.HasWhole d.coefficient) :
    d.toBinary64.isWhole = true ∧ d.toBinary64.toRat = d.toRat := by
  have hwhole : Binary64.HasWhole
      (if d.negative then -(d.coefficient : Int) else d.coefficient).natAbs := by
    split
    · rwa [Int.natAbs_neg, Int.natAbs_natCast]
    · rwa [Int.natAbs_natCast]
  obtain ⟨hfinite, hvalue⟩ := Binary64.ofInt_of_hasWhole hwhole
  rw [toBinary64, if_pos hscale]
  refine ⟨Binary64.isWhole_of_toRat_eq hfinite hvalue, hvalue.trans ?_⟩
  rw [toRat, magnitude, hscale, pow_zero, div_one]
  split <;> push_cast <;> rfl

end Decimal

namespace Binary64

/-! ### The decimal that is rounded -/

/-- The value of the decimal of a number, and of the number where it has none. -/
def decimalValue (x : Binary64) : Rat :=
  match Decimal.ofBinary64? x with
  | some d => d.toRat
  | none => x.toRat

theorem abs_toRat_finite (negative : Bool) {m : Nat} {e : Int} (h : StandardForm m e) :
    |toRat (.finite negative m e h)| = m * 2 ^ e :=
  have hnonneg : (0 : Rat) ≤ m * 2 ^ e := by positivity
  abs_signed negative hnonneg

theorem abs_decimal_sub_finite {d : Decimal} {negative : Bool} (hnegative : d.negative = negative)
    {m : Nat} {e : Int} (h : StandardForm m e) :
    |d.toRat - toRat (.finite negative m e h)| = |d.magnitude - m * 2 ^ e| := by
  subst hnegative
  exact abs_signed_sub d.negative _ _

/-- The three kinds of finite numbers: the decimal has 53 bits at most and is close to the number,
or it is the number, or there is none and the number is whole. -/
theorem decimal_cases {x : Binary64} (h : x.isFinite = true) :
    (∃ d, Decimal.ofBinary64? x = some d ∧ d.coefficient ≤ 0x20000000000000 ∧
      |d.toRat - x.toRat| ≤ |x.toRat| / 2 ^ 48 + 2 / 10 ^ 28) ∨
    (∃ d, Decimal.ofBinary64? x = some d ∧ d.scale = 0 ∧ HasWhole d.coefficient ∧
      d.toRat = x.toRat) ∨
    Decimal.ofBinary64? x = none ∧ ∃ negative m, ∃ n : Nat, ∃ hstandard : StandardForm m n,
      0 < n ∧ x = .finite negative m n hstandard := by
  cases x with
  | finite negative m e hstandard =>
    rcases le_or_gt e 0 with hle | hgt
    · obtain ⟨n, rfl⟩ : ∃ n : Nat, e = -(n : Int) := ⟨(-e).toNat, by omega⟩
      obtain ⟨d, hd, hnegative, hcoefficient, hclose⟩ :=
        Decimal.exists_ofBinary64?_of_nonpos negative hstandard
      refine .inl ⟨d, hd, hcoefficient, ?_⟩
      rw [abs_toRat_finite, abs_decimal_sub_finite hnegative]
      exact hclose
    · obtain ⟨n, rfl⟩ : ∃ n : Nat, e = n := ⟨e.toNat, by omega⟩
      have hpos : 0 < n := by omega
      cases hd : Decimal.ofBinary64? (.finite negative m n hstandard) with
      | none => exact .inr (.inr ⟨rfl, negative, m, n, hstandard, hpos, rfl⟩)
      | some d =>
        obtain ⟨hnegative, hscale, hcoefficient⟩ := Decimal.ofBinary64?_of_pos hpos hstandard hd
        have hmagnitude : d.magnitude = m * 2 ^ (n : Int) := by
          rw [Decimal.magnitude, hscale, hcoefficient, pow_zero, div_one, zpow_natCast]
          push_cast
          rfl
        refine .inr (.inl ⟨d, rfl, hscale, ?_, ?_⟩)
        · rw [hcoefficient]
          exact hasWhole_of_standard hstandard
        · rw [← sub_eq_zero, ← abs_eq_zero, abs_decimal_sub_finite hnegative, hmagnitude, sub_self,
            abs_zero]
  | _ => cases h

/-! ### Numbers without a decimal -/

theorem ofNat_one : ofNat 1 = .finite false 0x10000000000000 (-52) (by decide) := by
  decide +kernel

theorem magnitude_ofNat_one : (ofNat 1).magnitude = 1 := by
  rw [ofNat_one]
  norm_num [magnitude]

theorem finite_mul_one (negative : Bool) {m : Nat} {e : Int} (h : StandardForm m e) :
    finite negative m e h * ofNat 1 = finite negative m e h := by
  have hproduct : finite negative m e h * ofNat 1 =
      ofMagnitude (negative != false) ((m : Rat) * 2 ^ e * (ofNat 1).magnitude) := by
    rw [ofNat_one]
    rfl
  rw [hproduct, magnitude_ofNat_one, mul_one, Bool.bne_false, ofMagnitude_standard]

theorem finite_div_one (negative : Bool) {m : Nat} {e : Int} (h : StandardForm m e) :
    finite negative m e h / ofNat 1 = finite negative m e h := by
  have hquotient : finite negative m e h / ofNat 1 =
      ofMagnitude (negative != false) ((m : Rat) * 2 ^ e / (ofNat 1).magnitude) := by
    rw [ofNat_one]
    rfl
  rw [hquotient, magnitude_ofNat_one, div_one, Bool.bne_false, ofMagnitude_standard]

/-- A whole number without a decimal is not changed by rounding to whole numbers. -/
theorem roundTo_zero_of_none {negative : Bool} {m n : Nat} (hstandard : StandardForm m n)
    (h : Decimal.ofBinary64? (.finite negative m n hstandard) = none) :
    roundTo (.finite negative m n hstandard) 0 = .finite negative m n hstandard := by
  have hpower : powerOfTen (0 : Int).natAbs = ofNat 1 := by
    rw [powerOfTen, powerLoop, Int.natAbs_zero, if_pos rfl]
  have hround : (finite negative m n hstandard).roundToWhole = .finite negative m n hstandard := by
    rw [roundToWhole, if_pos (Int.natCast_nonneg n)]
  simp only [roundTo, if_neg (lt_irrefl (0 : Int)), h, hpower, finite_mul_one, hround,
    finite_div_one, isFinite, if_true]

end Binary64

/-! ### Rounding a number -/

/-- What rounding to places does to a finite number. -/
structure RoundsDecimal (x : Binary64) : Prop where
  /-- The decimal of the number has about fifteen of its digits and at most 28 places. -/
  close : |x.decimalValue - x.toRat| ≤ |x.toRat| / 2 ^ 48 + 2 / 10 ^ 28
  /-- Less than half a unit of the last place becomes zero. -/
  isZero (digits : Nat) : |x.decimalValue| < 1 / 2 / 10 ^ digits →
    (roundTo x digits).isZero = true
  isWhole : (roundTo x 0).isWhole = true
  /-- No whole number is nearer to the decimal. -/
  nearest : |(roundTo x 0).toRat - x.decimalValue| ≤ 1 / 2
  /-- Halves go away from zero. -/
  away : |(roundTo x 0).toRat - x.decimalValue| = 1 / 2 →
    |x.decimalValue| < |(roundTo x 0).toRat|

theorem roundTo_of_decimal {x : Binary64} {d : Decimal} (h : Decimal.ofBinary64? x = some d)
    (digits : Nat) : roundTo x digits = (d.round digits).toBinary64 := by
  have hdigits : ¬ (digits : Int) < 0 := by omega
  simp only [roundTo, if_neg hdigits, h, Int.natAbs_natCast]

theorem roundsDecimal_of_some {x : Binary64} {d : Decimal} (h : Decimal.ofBinary64? x = some d)
    (hclose : |d.toRat - x.toRat| ≤ |x.toRat| / 2 ^ 48 + 2 / 10 ^ 28)
    (hwhole : Binary64.HasWhole (d.round 0).coefficient) : RoundsDecimal x := by
  have hvalue : x.decimalValue = d.toRat := by rw [Binary64.decimalValue, h]
  have hround : roundTo x 0 = (d.round 0).toBinary64 := roundTo_of_decimal h 0
  obtain ⟨hisWhole, htoRat⟩ := Decimal.toBinary64_of_hasWhole d.scale_round_zero hwhole
  obtain ⟨hupper, hlower⟩ := d.magnitude_round 0
  rw [pow_zero, div_one] at hupper hlower
  have hdistance : |(roundTo x 0).toRat - x.decimalValue| =
      |(d.round 0).magnitude - d.magnitude| := by
    rw [hround, htoRat, hvalue, d.abs_toRat_round_sub 0]
  refine { close := ?close, isZero := ?isZero, isWhole := ?isWhole, nearest := ?nearest,
           away := ?away }
  case close =>
    rw [hvalue]
    exact hclose
  case isZero =>
    intro digits hsmall
    rw [hvalue, d.abs_toRat] at hsmall
    rw [roundTo_of_decimal h digits]
    exact Decimal.isZero_toBinary64 (Decimal.coefficient_round_eq_zero hsmall)
  case isWhole =>
    rw [hround]
    exact hisWhole
  case nearest =>
    rw [hdistance]
    exact abs_le.mpr ⟨by linarith, by linarith⟩
  case away =>
    intro htie
    rw [hdistance] at htie
    rw [hround, htoRat, hvalue, d.abs_toRat, (d.round 0).abs_toRat]
    rcases abs_cases ((d.round 0).magnitude - d.magnitude) with ⟨habs, -⟩ | ⟨habs, -⟩ <;> linarith

theorem roundsDecimal_of_none {negative : Bool} {m n : Nat} (hpos : 0 < n)
    (hstandard : StandardForm m n)
    (h : Decimal.ofBinary64? (.finite negative m n hstandard) = none) :
    RoundsDecimal (.finite negative m n hstandard) := by
  have hvalue : (Binary64.finite negative m n hstandard).decimalValue =
      (Binary64.finite negative m n hstandard).toRat := by rw [Binary64.decimalValue, h]
  have hround := Binary64.roundTo_zero_of_none hstandard h
  refine { close := ?close, isZero := ?isZero, isWhole := ?isWhole, nearest := ?nearest,
           away := ?away }
  case close =>
    rw [hvalue, sub_self, abs_zero]
    positivity
  case isZero =>
    -- A number without a decimal is no fraction, so the premise fails.
    intro digits hsmall
    have hm : 0 < m := by
      obtain ⟨-, -, -, hlead⟩ := hstandard
      omega
    have hone : (1 : Rat) ≤ m * 2 ^ (n : Int) := by
      rw [zpow_natCast]
      exact_mod_cast Nat.mul_pos hm (Nat.two_pow_pos n)
    have hunit : (1 : Rat) / 10 ^ digits ≤ 1 / 10 ^ 0 := Decimal.one_div_ten_pow_le digits.zero_le
    rw [hvalue, Binary64.abs_toRat_finite, div_right_comm] at hsmall
    rw [pow_zero, div_one] at hunit
    linarith
  case isWhole =>
    have hsigned : (Binary64.finite negative m n hstandard).toRat =
        if negative then -((m : Rat) * 2 ^ (n : Int)) else m * 2 ^ (n : Int) := rfl
    have hinteger : (Binary64.finite negative m n hstandard).toRat =
        ((if negative then -((m * 2 ^ n : Nat) : Int) else (m * 2 ^ n : Nat) : Int) : Rat) := by
      rw [hsigned, zpow_natCast]
      split <;> push_cast <;> rfl
    rw [hround]
    exact Binary64.isWhole_of_toRat_eq rfl hinteger
  case nearest =>
    rw [hround, hvalue, sub_self, abs_zero]
    norm_num
  case away =>
    rw [hround, hvalue, sub_self, abs_zero]
    norm_num

/-- Rounding a finite number goes by its decimal: to the nearest whole number, halves away from
zero, and to zero below half a unit of the last place. -/
theorem roundsDecimal_of_isFinite {x : Binary64} (h : x.isFinite = true) : RoundsDecimal x := by
  rcases Binary64.decimal_cases h with ⟨d, hd, hcoefficient, hclose⟩ |
    ⟨d, hd, hscale, hwhole, hexact⟩ | ⟨hnone, negative, m, n, hstandard, hpos, rfl⟩
  · exact roundsDecimal_of_some hd hclose
      (Binary64.hasWhole_of_le (Decimal.coefficient_round_le hcoefficient 0))
  · have hsame : d.round 0 = d := dif_pos hscale.le
    refine roundsDecimal_of_some hd ?_ (by rwa [hsame])
    rw [hexact, sub_self, abs_zero]
    positivity
  · exact roundsDecimal_of_none hpos hstandard hnone

/-- Two and a half becomes three. -/
theorem roundsDecimal_of_isFinite_tie :
    RoundsDecimal (.finite false 0x14000000000000 (-51) (by decide)) ∧
      roundTo (.finite false 0x14000000000000 (-51) (by decide)) 0 = .ofNat 3 :=
  ⟨roundsDecimal_of_isFinite rfl, by decide +kernel⟩

/-- The greatest number below a half has the decimal one half, so it becomes one. -/
theorem roundTo_below_half :
    let x := Binary64.finite false 0x1FFFFFFFFFFFFF (-54) (by decide)
    |x.toRat| < 1 / 2 / 10 ^ 0 ∧ x.decimalValue = 1 / 2 ∧ roundTo x 0 = .ofNat 1 := by
  decide +kernel

end ColumnFormula
