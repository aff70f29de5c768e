import ColumnFormula.Proofs.Number.PowersOfTen

/-!
# Rounding to tens, hundreds and so on

Rounding to a negative number of places divides by a power of ten, rounds to a whole number and
multiplies again. Below half of the power the quotient is below one half even after it has been
rounded (`div_le_below_half`), so the result is zero; from half of the power on the quotient, the
whole number and the product all stay away from zero. Hence a number becomes zero exactly if it is
below half of the power (`isZero_roundTo_iff`), where the power is the floating-point one: exact up
to `10 ^ 22` and close up to `10 ^ 308`. Above, the power is infinite, nothing can be scaled by it,
and every number stays as it is, however small (`round_past_greatest_power`).
-/

set_option autoImplicit false
set_option relaxedAutoImplicit false

namespace ColumnFormula

theorem one_le_nearest_away {x : Rat} (h : 1 / 2 ≤ x) : 1 ≤ nearest .away x := by
  by_cases hfloor : x.floor.toNat = 0
  · have hnearest : nearest .away x = if x < 1 / 2 then 0 else 1 := by
      simp [nearest, hfloor, Tie.resolve]
    rw [hnearest, if_neg h.not_gt]
  · exact (Nat.one_le_iff_ne_zero.mpr hfloor).trans (floor_le_nearest .away x)

namespace Binary64

theorem abs_toRat (x : Binary64) : |x.toRat| = x.magnitude := by
  have hnonneg : 0 ≤ x.magnitude := by
    cases x with
    | finite negative m e h => exact mul_two_zpow_nonneg m e
    | _ => exact le_rfl
  exact abs_signed x.isNegative hnonneg

/-! ### The quotient -/

/-- A number below half of another one is so far below it that the quotient cannot be rounded up to
one half. -/
theorem div_le_below_half {m n : Nat} {e f : Int} (hm : StandardForm m e) (hn : StandardForm n f)
    (h : (m : Rat) * 2 ^ e < n * 2 ^ f / 2) :
    (m : Rat) * 2 ^ e / (n * 2 ^ f) ≤ (0x1FFFFFFFFFFFFF : Nat) * 2 ^ (-54 : Int) := by
  have hpos : (0 : Rat) < n * 2 ^ f := by
    have hnonneg := mul_two_zpow_nonneg m e
    linarith
  have hnbits : (n : Rat) ≤ 2 ^ 53 := by exact_mod_cast hn.1.le
  rw [div_le_iff₀ hpos]
  by_cases hunit : f ≤ e + 1
  · -- Both are multiples of half the unit of the second number.
    obtain ⟨k, rfl⟩ : ∃ k : Nat, e = f - 1 + k := ⟨(e - (f - 1)).toNat, by omega⟩
    have hvalue : (m : Rat) * 2 ^ (f - 1 + k) = (m * 2 ^ k : Nat) * (2 ^ f / 2) := by
      rw [zpow_add₀ two_ne_zero, zpow_sub_one₀ two_ne_zero, zpow_natCast]
      push_cast
      ring
    rw [hvalue] at h ⊢
    have hlt : ((m * 2 ^ k : Nat) : Rat) < n := by
      refine lt_of_mul_lt_mul_right (h.trans_eq ?_) (half_pos (two_zpow_pos f)).le
      ring
    have hle : ((m * 2 ^ k : Nat) : Rat) ≤ n - 1 := by
      have hnat : m * 2 ^ k + 1 ≤ n := by exact_mod_cast hlt
      have hcast : ((m * 2 ^ k : Nat) : Rat) + 1 ≤ n := by exact_mod_cast hnat
      linarith
    calc ((m * 2 ^ k : Nat) : Rat) * (2 ^ f / 2)
        ≤ (n - n / 2 ^ 53) * (2 ^ f / 2) := by
          refine mul_le_mul_of_nonneg_right ?_ (half_pos (two_zpow_pos f)).le
          linarith
      _ = (0x1FFFFFFFFFFFFF : Nat) * 2 ^ (-54 : Int) * (n * 2 ^ f) := by
          norm_num
          ring
  · -- The first one has a smaller unit, and its bits do not make up for that.
    have hbits : (m : Rat) ≤ (0x1FFFFFFFFFFFFF : Nat) := by
      have hnat : m ≤ 0x1FFFFFFFFFFFFF := Nat.le_of_lt_succ hm.1
      exact_mod_cast hnat
    have hlead : (2 : Rat) ^ 52 ≤ n := by
      obtain ⟨-, hleast, -, -⟩ := hm
      obtain ⟨-, -, -, hlead⟩ := hn
      have hnat : 0x10000000000000 ≤ n := by omega
      exact_mod_cast hnat
    calc (m : Rat) * 2 ^ e
        ≤ (0x1FFFFFFFFFFFFF : Nat) * 2 ^ (f - 2) :=
          mul_le_mul hbits (zpow_le_zpow_right₀ one_le_two (by omega)) (two_zpow_pos e).le
            (Nat.cast_nonneg _)
      _ = (0x1FFFFFFFFFFFFF : Nat) * 2 ^ (-54 : Int) * (2 ^ 52 * 2 ^ f) := by
          rw [zpow_sub₀ two_ne_zero]
          norm_num
          ring
      _ ≤ (0x1FFFFFFFFFFFFF : Nat) * 2 ^ (-54 : Int) * (n * 2 ^ f) := by
          refine mul_le_mul_of_nonneg_left ?_ (by positivity)
          exact mul_le_mul_of_nonneg_right hlead (two_zpow_pos f).le

theorem finite_div_finite (a b : Bool) {m n : Nat} {e f : Int} (hm : StandardForm m e)
    (hn : StandardForm n f) (hne : n ≠ 0) :
    finite a m e hm / finite b n f hn = ofMagnitude (a != b) (m * 2 ^ e / (n * 2 ^ f)) :=
  if_neg hne

/-! ### Numbers below half of the power -/

theorem isZero_roundToWhole {x : Binary64} (hfinite : x.isFinite = true)
    (h : x.magnitude < 1 / 2) : x.roundToWhole.isZero = true := by
  cases x with
  | finite negative m e hm =>
    rw [magnitude_finite] at h
    rw [roundToWhole]
    split
    · rename_i hwhole
      have hone : (1 : Rat) ≤ 2 ^ e := one_le_zpow₀ one_le_two hwhole
      have hlt : (m : Rat) < 1 := by
        have hle : (m : Rat) ≤ m * 2 ^ e := le_mul_of_one_le_right (Nat.cast_nonneg m) hone
        linarith
      have hzero : m < 1 := by exact_mod_cast hlt
      exact beq_iff_eq.mpr (Nat.lt_one_iff.mp hzero)
    · rw [magnitude_finite, nearest_eq_zero .away (mul_two_zpow_nonneg m e) h, ofMagnitude,
        if_pos Nat.cast_zero]
      rfl
  | _ => cases hfinite

/-- Zero times a finite number is zero. -/
theorem isZero_mul {x y : Binary64} (hx : x.isZero = true) (hy : y.isFinite = true) :
    (x * y).isZero = true ∧ (x * y).isFinite = true := by
  cases x with
  | finite a m e hm =>
    cases y with
    | finite b n f hn =>
      obtain rfl : m = 0 := beq_iff_eq.mp hx
      have hproduct : finite a 0 e hm * finite b n f hn = .zero (a != b) := by
        refine if_pos ?_
        rw [magnitude_finite, Nat.cast_zero, zero_mul, zero_mul]
      rw [hproduct]
      exact ⟨rfl, rfl⟩
    | _ => cases hy
  | _ => cases hx

/-! ### Numbers from half of the power on -/

theorem AtLeast.roundToWhole {x : Binary64} (h : AtLeast (-1) x) : AtLeast (-1) x.roundToWhole := by
  cases h with
  | infinity negative => exact .infinity negative
  | finite hfinite hle =>
    cases x with
    | finite negative m e hm =>
      rw [Binary64.roundToWhole]
      split
      · exact .finite hfinite hle
      · have hone : 1 ≤ nearest .away (Binary64.finite negative m e hm).magnitude :=
          one_le_nearest_away (by simpa using hle)
        have hrat : (1 : Rat) ≤ nearest .away (Binary64.finite negative m e hm).magnitude := by
          exact_mod_cast hone
        refine atLeast_ofMagnitude negative (by decide) (by decide) (le_trans ?_ hrat)
        norm_num
    | _ => cases hfinite

/-! ### Scaling down and up again -/

section Scaled

variable (a : Bool) {m n : Nat} {e f : Int} (hm : StandardForm m e) (hn : StandardForm n f)

theorem isZero_scaled (hlt : (m : Rat) * 2 ^ e < n * 2 ^ f / 2) :
    ((finite a m e hm / finite false n f hn).roundToWhole * finite false n f hn).isZero = true ∧
      ((finite a m e hm / finite false n f hn).roundToWhole * finite false n f hn).isFinite =
        true := by
  have hne : n ≠ 0 := by
    rintro rfl
    rw [Nat.cast_zero, zero_mul, zero_div] at hlt
    exact hlt.not_ge (mul_two_zpow_nonneg m e)
  have hquotient : (0 : Rat) ≤ m * 2 ^ e / (n * 2 ^ f) :=
    div_nonneg (mul_two_zpow_nonneg m e) (mul_two_zpow_nonneg n f)
  obtain ⟨hfinite, hmagnitude⟩ := ofMagnitude_le (m := 0x1FFFFFFFFFFFFF) (e := -54) (a != false)
    hquotient (by decide) (div_le_below_half hm hn hlt)
  rw [finite_div_finite a false hm hn hne]
  refine isZero_mul (isZero_roundToWhole hfinite (hmagnitude.trans_lt ?_)) rfl
  norm_num

theorem atLeast_scaled (hone : (1 : Rat) ≤ n * 2 ^ f) (hle : (n : Rat) * 2 ^ f / 2 ≤ m * 2 ^ e) :
    AtLeast (-1) ((finite a m e hm / finite false n f hn).roundToWhole * finite false n f hn) := by
  have hquotient : (2 : Rat) ^ (-1 : Int) ≤ m * 2 ^ e / (n * 2 ^ f) := by
    rw [le_div_iff₀ (zero_lt_one.trans_le hone), zpow_neg_one]
    linarith
  have hfactor : AtLeast 0 (.finite false n f hn) := .finite rfl (by rwa [zpow_zero])
  rw [finite_div_finite a false hm hn (ne_zero_of_one_le hone)]
  exact (atLeast_ofMagnitude (a != false) (by decide) (by decide) hquotient).roundToWhole.mul
    hfactor (by decide) (by decide)

end Scaled

/-- Scaling by an infinite power leaves nothing that is a number. -/
theorem scaled_infinity (a : Bool) {m : Nat} {e : Int} (hm : StandardForm m e) :
    (finite a m e hm / infinity false).roundToWhole * infinity false = .nan := by
  have hround : ∀ sign, (zero sign).roundToWhole * infinity false = .nan := by decide +kernel
  exact hround (a != false)

end Binary64

/-! ### Rounding a number -/

theorem roundTo_of_neg (x : Binary64) {digits : Int} (h : digits < 0) :
    roundTo x digits =
      let power := Binary64.powerOfTen digits.natAbs
      let scaled := (x / power).roundToWhole * power
      if scaled.isFinite then scaled else x := by
  simp only [roundTo, if_pos h]

/-- What rounding to tens, hundreds and so on does to a finite number. -/
structure RoundsToTens (x : Binary64) (digits : Int) : Prop where
  isFinite : (roundTo x digits).isFinite = true
  /-- Less than half of the power becomes zero, and nothing else does. -/
  isZero_iff : -22 ≤ digits →
    ((roundTo x digits).isZero = true ↔ |x.toRat| < 10 ^ digits.natAbs / 2)
  /-- Larger powers are not exact, and half of the power is half of what they were rounded to. -/
  isZero_iff_rounded : -308 ≤ digits →
    ((roundTo x digits).isZero = true ↔
      |x.toRat| < (Binary64.powerOfTen digits.natAbs).toRat / 2) ∧
    |(Binary64.powerOfTen digits.natAbs).toRat - 10 ^ digits.natAbs| ≤
      10 ^ digits.natAbs / 2 ^ 43
  /-- Where the power is past the greatest number, nothing is rounded. -/
  unchanged : digits < -308 → roundTo x digits = x

theorem isFinite_roundTo {x : Binary64} (h : x.isFinite = true) {digits : Int}
    (hdigits : digits < 0) : (roundTo x digits).isFinite = true := by
  rw [roundTo_of_neg x hdigits]
  dsimp only
  split
  · assumption
  · exact h

theorem isZero_roundTo_iff {x : Binary64} (h : x.isFinite = true) {digits : Int}
    (hdigits : digits < 0) (hrange : -308 ≤ digits) :
    (roundTo x digits).isZero = true ↔
      |x.toRat| < (Binary64.powerOfTen digits.natAbs).toRat / 2 := by
  obtain ⟨n, f, hn, hpower, hclose⟩ := Binary64.exists_powerOfTen_eq (k := digits.natAbs) (by omega)
  have hone : (1 : Rat) ≤ n * 2 ^ f := by
    have hten : (10 : Rat) ^ 1 ≤ 10 ^ digits.natAbs := pow_le_pow_right₀ (by norm_num) (by omega)
    have hlow := (abs_le.mp hclose).1
    linarith
  have hvalue : (Binary64.finite false n f hn).toRat = n * 2 ^ f := rfl
  rw [roundTo_of_neg x hdigits, hpower, hvalue, x.abs_toRat]
  cases x with
  | finite a m e hm =>
    rw [Binary64.magnitude_finite]
    dsimp only
    by_cases hlt : (m : Rat) * 2 ^ e < n * 2 ^ f / 2
    · obtain ⟨hzero, hfinite⟩ := Binary64.isZero_scaled a hm hn hlt
      rw [if_pos hfinite]
      exact iff_of_true hzero hlt
    · have hle := not_lt.mp hlt
      refine iff_of_false ?_ hlt
      rw [Bool.not_eq_true]
      split
      · exact (Binary64.atLeast_scaled a hm hn hone hle).isZero
      · -- The product is past the greatest number; then the number itself is left, and it is large.
        have hleast : Binary64.AtLeast (-1) (.finite a m e hm) := by
          refine .finite rfl ?_
          rw [Binary64.magnitude_finite, zpow_neg_one]
          linarith
        exact hleast.isZero
  | _ => cases h

theorem roundTo_of_lt_neg_308 {x : Binary64} (h : x.isFinite = true) {digits : Int}
    (hrange : digits < -308) : roundTo x digits = x := by
  rw [roundTo_of_neg x (by omega), Binary64.powerOfTen_eq_infinity (by omega)]
  cases x with
  | finite a m e hm =>
    dsimp only
    rw [Binary64.scaled_infinity a hm]
    rfl
  | _ => cases h

/-- Rounding to tens and the like gives a finite number. As long as the power is in range, that is
zero exactly for numbers below half of the power; otherwise it is the number itself. -/
theorem roundsToTens_of_isFinite {x : Binary64} (h : x.isFinite = true) {digits : Int}
    (hdigits : digits < 0) : RoundsToTens x digits := by
  refine { isFinite := isFinite_roundTo h hdigits, isZero_iff := ?isZero_iff,
           isZero_iff_rounded := ?isZero_iff_rounded, unchanged := roundTo_of_lt_neg_308 h }
  case isZero_iff =>
    intro hrange
    have hexact : ∀ k < 23, (Binary64.powerOfTen k).toRat = 10 ^ k := by decide +kernel
    rw [isZero_roundTo_iff h hdigits (by omega), hexact digits.natAbs (by omega)]
  case isZero_iff_rounded =>
    intro hrange
    refine ⟨isZero_roundTo_iff h hdigits hrange, ?_⟩
    obtain ⟨n, f, hn, hpower, hclose⟩ :=
      Binary64.exists_powerOfTen_eq (k := digits.natAbs) (by omega)
    rw [hpower]
    exact hclose

/-- Rounded to hundreds, forty-nine becomes zero and fifty becomes a hundred. -/
theorem roundsToTens_of_isFinite_hundreds :
    RoundsToTens (.ofNat 49) (-2) ∧ (roundTo (.ofNat 49) (-2)).isZero = true ∧
      RoundsToTens (.ofNat 50) (-2) ∧ roundTo (.ofNat 50) (-2) = .ofNat 100 :=
  ⟨roundsToTens_of_isFinite (by decide +kernel) (by decide), by decide +kernel,
    roundsToTens_of_isFinite (by decide +kernel) (by decide), by decide +kernel⟩

/-- Five is less than half of `10 ^ 309`, and is not rounded to zero. -/
theorem round_past_greatest_power :
    let x := Binary64.ofNat 5
    let digits := Binary64.ofInt (-309)
    |x.toRat| < 10 ^ 309 / 2 ∧ digitCountOf digits = -309 ∧
      Builtin.round.apply [.number x, .number digits] = .ok (.number x) ∧ x.isZero = false := by
  decide +kernel

end ColumnFormula
