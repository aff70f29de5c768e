import ColumnFormula.Number.Binary64
import Mathlib.Algebra.Order.Field.Power
import Mathlib.Algebra.Order.Floor.Ring
import Mathlib.Data.Rat.Floor
import Mathlib.Tactic.Linarith
import Mathlib.Tactic.NormNum
import Mathlib.Tactic.Positivity
import Mathlib.Tactic.Ring

/-!
# Rounding a magnitude

What `Binary64.ofMagnitude` computes. The binary exponent is the exponent of the leading bit
(`binaryExponent_spec`), so a magnitude that is a standard number already comes back unchanged
(`ofMagnitude_standard`), one past the greatest exponent becomes infinite and one far below the
least unit becomes zero. Hence the two shortcuts of `ofDecimal`, which keep huge powers of ten from
being computed, change no result (`ofDecimal_eq_ofMagnitude`).
-/

set_option autoImplicit false
set_option relaxedAutoImplicit false

namespace ColumnFormula

/-! ### The nearest whole number -/

theorem nearest_natCast (tie : Tie) (n : Nat) : nearest tie (n : Rat) = n := by
  have hfloor : (n : Rat).floor = (n : Int) := by
    rw [← Int.cast_natCast, Rat.floor_intCast]
  unfold nearest
  rw [hfloor]
  norm_num

theorem nearest_eq_zero (tie : Tie) {x : Rat} (hnonneg : 0 ≤ x) (hsmall : x < 1 / 2) :
    nearest tie x = 0 := by
  have hfloor : x.floor = 0 := by
    have hfloor : ⌊x⌋ = 0 := Int.floor_eq_zero_iff.mpr ⟨hnonneg, by linarith⟩
    exact hfloor
  unfold nearest
  rw [hfloor]
  norm_num
  intro hlarge
  linarith

namespace Binary64

/-! ### The leading bit -/

theorem two_zpow_pos (k : Int) : (0 : Rat) < 2 ^ k := by positivity

/-- A positive rational lies between two neighbouring powers of two around the difference of the
bit lengths of its numerator and denominator. -/
theorem between_of_log2 {x : Rat} (hx : 0 < x) :
    (2 : Rat) ^ ((x.num.natAbs.log2 : Int) - x.den.log2 - 1) < x ∧
      x < 2 ^ ((x.num.natAbs.log2 : Int) - x.den.log2 + 1) := by
  have hnum : x.num.natAbs ≠ 0 := Int.natAbs_ne_zero.mpr (Rat.num_pos.mpr hx).ne'
  have hvalue : x = (x.num.natAbs : Rat) / x.den := by
    have habs : ((x.num.natAbs : Nat) : Rat) = (x.num : Rat) := by
      rw [Nat.cast_natAbs, abs_of_pos (Rat.num_pos.mpr hx)]
    rw [habs, Rat.num_div_den]
  have hnumLow : (2 : Rat) ^ (x.num.natAbs.log2 : Int) ≤ x.num.natAbs := by
    rw [zpow_natCast]
    exact_mod_cast Nat.log2_self_le hnum
  have hnumHigh : (x.num.natAbs : Rat) < 2 ^ ((x.num.natAbs.log2 : Int) + 1) := by
    rw [← Nat.cast_succ, zpow_natCast]
    exact_mod_cast Nat.lt_log2_self
  have hdenLow : (2 : Rat) ^ (x.den.log2 : Int) ≤ x.den := by
    rw [zpow_natCast]
    exact_mod_cast Nat.log2_self_le x.den_nz
  have hdenHigh : (x.den : Rat) < 2 ^ ((x.den.log2 : Int) + 1) := by
    rw [← Nat.cast_succ, zpow_natCast]
    exact_mod_cast Nat.lt_log2_self
  have hden : (0 : Rat) < x.den := by exact_mod_cast x.den_pos
  have hmul : x * x.den = x.num.natAbs := by
    rw [eq_div_iff hden.ne'] at hvalue
    exact hvalue
  constructor
  · refine lt_of_mul_lt_mul_right ?_ hden.le
    calc (2 : Rat) ^ ((x.num.natAbs.log2 : Int) - x.den.log2 - 1) * x.den
        < 2 ^ ((x.num.natAbs.log2 : Int) - x.den.log2 - 1) * 2 ^ ((x.den.log2 : Int) + 1) :=
          mul_lt_mul_of_pos_left hdenHigh (two_zpow_pos _)
      _ = 2 ^ (x.num.natAbs.log2 : Int) := by
        rw [← zpow_add₀ two_ne_zero]
        congr 1
        ring
      _ ≤ x * x.den := by
        rw [hmul]
        exact hnumLow
  · refine lt_of_mul_lt_mul_right ?_ (two_zpow_pos (x.den.log2 : Int)).le
    calc x * 2 ^ (x.den.log2 : Int)
        ≤ x * x.den := mul_le_mul_of_nonneg_left hdenLow hx.le
      _ < 2 ^ ((x.num.natAbs.log2 : Int) + 1) := by
        rw [hmul]
        exact hnumHigh
      _ = 2 ^ ((x.num.natAbs.log2 : Int) - x.den.log2 + 1) * 2 ^ (x.den.log2 : Int) := by
        rw [← zpow_add₀ two_ne_zero]
        congr 1
        ring

/-- The binary exponent is the exponent of the leading bit. -/
theorem binaryExponent_spec {x : Rat} (hx : 0 < x) :
    (2 : Rat) ^ binaryExponent x ≤ x ∧ x < 2 ^ (binaryExponent x + 1) := by
  obtain ⟨hlow, hhigh⟩ := between_of_log2 hx
  unfold binaryExponent
  dsimp only
  split
  · rename_i hbelow
    exact ⟨hlow.le, by simpa using hbelow⟩
  · rename_i habove
    exact ⟨not_lt.mp habove, hhigh⟩

theorem binaryExponent_lt {x : Rat} {k : Int} (hx : 0 < x) (h : x < 2 ^ k) :
    binaryExponent x < k :=
  (zpow_lt_zpow_iff_right₀ one_lt_two).mp ((binaryExponent_spec hx).1.trans_lt h)

theorem le_binaryExponent {x : Rat} {k : Int} (hx : 0 < x) (h : 2 ^ k ≤ x) :
    k ≤ binaryExponent x :=
  Int.lt_add_one_iff.mp
    ((zpow_lt_zpow_iff_right₀ one_lt_two).mp (h.trans_lt (binaryExponent_spec hx).2))

/-! ### Standard numbers, too large and too small ones -/

/-- The unit of a standard number with a nonzero significand is its own exponent. -/
theorem unitExponent_standard {m : Nat} {e : Int} (h : StandardForm m e) (hm : m ≠ 0) :
    unitExponent ((m : Rat) * 2 ^ e) = e := by
  obtain ⟨hlt, hleast, -, hlead⟩ := h
  have hpos : (0 : Rat) < (m : Rat) * 2 ^ e :=
    mul_pos (by exact_mod_cast Nat.pos_of_ne_zero hm) (two_zpow_pos e)
  have hhigh : binaryExponent ((m : Rat) * 2 ^ e) < e + 53 := by
    refine binaryExponent_lt hpos ?_
    rw [zpow_add₀ two_ne_zero, mul_comm]
    refine mul_lt_mul_of_pos_left ?_ (two_zpow_pos e)
    have hbits : (m : Rat) < (0x20000000000000 : Nat) := by exact_mod_cast hlt
    norm_num at hbits ⊢
    exact hbits
  unfold unitExponent
  rcases hlead with hlead | rfl
  · have hlow : e + 52 ≤ binaryExponent ((m : Rat) * 2 ^ e) := by
      refine le_binaryExponent hpos ?_
      rw [zpow_add₀ two_ne_zero, mul_comm]
      refine mul_le_mul_of_nonneg_right ?_ (two_zpow_pos e).le
      have hbits : ((0x10000000000000 : Nat) : Rat) ≤ m := by exact_mod_cast hlead
      norm_num at hbits ⊢
      exact hbits
    omega
  · omega

/-- Zero has the least exponent. -/
theorem exponent_of_standard_zero {e : Int} (h : StandardForm 0 e) : e = -1074 := by
  obtain ⟨-, -, -, hlead⟩ := h
  omega

/-- A magnitude that is a standard number is not changed by rounding. -/
theorem ofMagnitude_standard (negative : Bool) {m : Nat} {e : Int} (h : StandardForm m e) :
    ofMagnitude negative ((m : Rat) * 2 ^ e) = .finite negative m e h := by
  by_cases hm : m = 0
  · subst hm
    obtain rfl := exponent_of_standard_zero h
    simp [ofMagnitude, zero]
  · have hne : (m : Rat) * 2 ^ e ≠ 0 :=
      mul_ne_zero (by exact_mod_cast hm) (two_zpow_pos e).ne'
    have hnearest : nearest .toEven ((m : Rat) * 2 ^ e / 2 ^ e) = m := by
      rw [mul_div_assoc, div_self (two_zpow_pos e).ne', mul_one, nearest_natCast]
    unfold ofMagnitude
    rw [if_neg hne, unitExponent_standard h hm]
    dsimp only
    rw [hnearest, dif_pos h]

/-- A finite number is found again from its value, except that both zeros become the positive
one. -/
theorem ofRat_toRat (negative : Bool) {m : Nat} {e : Int} (h : StandardForm m e) :
    ofRat (toRat (.finite negative m e h)) =
      if m = 0 then zero false else .finite negative m e h := by
  by_cases hm : m = 0
  · subst hm
    cases negative <;> simp [ofRat, toRat, isNegative, magnitude, ofMagnitude]
  · have hpos : (0 : Rat) < (m : Rat) * 2 ^ e :=
      mul_pos (by exact_mod_cast Nat.pos_of_ne_zero hm) (two_zpow_pos e)
    rw [if_neg hm]
    cases negative with
    | false =>
      have hvalue : toRat (.finite false m e h) = (m : Rat) * 2 ^ e := rfl
      rw [hvalue, ofRat, if_neg hpos.not_gt, ofMagnitude_standard]
    | true =>
      have hvalue : toRat (.finite true m e h) = -((m : Rat) * 2 ^ e) := rfl
      rw [hvalue, ofRat, if_pos (neg_neg_of_pos hpos), neg_neg, ofMagnitude_standard]

theorem ofMagnitude_of_large (negative : Bool) {x : Rat} (h : (2 : Rat) ^ (1025 : Int) ≤ x) :
    ofMagnitude negative x = .infinity negative := by
  have hpos : 0 < x := (two_zpow_pos _).trans_le h
  have hexponent := le_binaryExponent hpos h
  have hunit : 973 ≤ unitExponent x := by
    unfold unitExponent
    omega
  unfold ofMagnitude
  rw [if_neg hpos.ne']
  dsimp only
  rw [dif_neg (fun hstandard ↦ ?_), dif_neg (fun hstandard ↦ ?_)]
  · obtain ⟨-, -, hgreatest, -⟩ := hstandard
    omega
  · obtain ⟨-, -, hgreatest, -⟩ := hstandard
    omega

theorem ofMagnitude_of_small (negative : Bool) {x : Rat} (hnonneg : 0 ≤ x)
    (h : x < (2 : Rat) ^ (-1075 : Int)) : ofMagnitude negative x = zero negative := by
  unfold ofMagnitude
  split
  · rfl
  · rename_i hne
    have hpos : 0 < x := lt_of_le_of_ne hnonneg (Ne.symm hne)
    have hexponent := binaryExponent_lt hpos h
    have hunit : unitExponent x = -1074 := by
      unfold unitExponent
      omega
    have hhalf : x / 2 ^ (-1074 : Int) < 1 / 2 := by
      rw [div_lt_iff₀ (two_zpow_pos _)]
      refine h.trans_eq ?_
      rw [show (-1075 : Int) = -1 + -1074 from rfl, zpow_add₀ two_ne_zero]
      norm_num
    have hnearest : nearest .toEven (x / 2 ^ (-1074 : Int)) = 0 :=
      nearest_eq_zero _ (div_nonneg hnonneg (two_zpow_pos _).le) hhalf
    rw [hunit]
    dsimp only
    rw [hnearest, dif_pos (by decide)]
    rfl

/-! ### Decimal magnitudes -/

theorem ten_zpow_pos (k : Int) : (0 : Rat) < 10 ^ k := by positivity

/-- A power of ten has more than three times as many bits as its exponent. -/
theorem two_pow_lt_ten_pow {m k : Nat} (h : m < 3 * k) : (2 : Rat) ^ m < 10 ^ k :=
  calc (2 : Rat) ^ m < 2 ^ (3 * k) := pow_lt_pow_right₀ one_lt_two h
    _ = 8 ^ k := by
      rw [pow_mul]
      norm_num
    _ ≤ 10 ^ k := pow_le_pow_left₀ (by norm_num) (by norm_num) k

/-- A coefficient with its power of ten is small when the power of ten outweighs its bits. -/
theorem mul_ten_zpow_lt {coefficient : Nat} {k : Int} (h : k + coefficient.log2 < -400) :
    (coefficient : Rat) * 10 ^ k < 2 ^ (-1075 : Int) := by
  have hbits : (coefficient : Rat) < 2 ^ (coefficient.log2 + 1) := by
    exact_mod_cast Nat.lt_log2_self
  calc (coefficient : Rat) * 10 ^ k
      < 2 ^ (coefficient.log2 + 1) * 10 ^ k := mul_lt_mul_of_pos_right hbits (ten_zpow_pos k)
    _ ≤ 10 ^ (coefficient.log2 + 1) * 10 ^ k := by
      refine mul_le_mul_of_nonneg_right ?_ (ten_zpow_pos k).le
      exact pow_le_pow_left₀ (by norm_num) (by norm_num) _
    _ = 10 ^ ((coefficient.log2 + 1 : Nat) + k) := by
      rw [zpow_add₀ (by norm_num), zpow_natCast]
    _ ≤ 10 ^ (-400 : Int) := zpow_le_zpow_right₀ (by norm_num) (by push_cast; omega)
    _ = (10 ^ 400)⁻¹ := by rw [← zpow_natCast, ← zpow_neg]; rfl
    _ < (2 ^ 1075)⁻¹ := inv_strictAnti₀ (by positivity) (two_pow_lt_ten_pow (by omega))
    _ = 2 ^ (-1075 : Int) := by rw [← zpow_natCast, ← zpow_neg]; rfl

/-- The shortcuts for powers of ten far outside the range change no result. -/
theorem ofDecimal_eq_ofMagnitude (negative : Bool) (coefficient : Nat) (exponent : Int) :
    ofDecimal negative coefficient exponent =
      ofMagnitude negative ((coefficient : Rat) * 10 ^ exponent) := by
  unfold ofDecimal
  split
  · rename_i hzero
    subst hzero
    simp [ofMagnitude]
  · rename_i hcoefficient
    split
    · rename_i hlarge
      refine (ofMagnitude_of_large negative ?_).symm
      have hone : (1 : Rat) ≤ coefficient := by
        exact_mod_cast Nat.one_le_iff_ne_zero.mpr hcoefficient
      calc (2 : Rat) ^ (1025 : Int) = 2 ^ 1025 := zpow_natCast 2 1025
        _ ≤ 10 ^ 401 := (two_pow_lt_ten_pow (by omega)).le
        _ = 10 ^ (401 : Int) := (zpow_natCast 10 401).symm
        _ ≤ 10 ^ exponent := zpow_le_zpow_right₀ (by norm_num) (by omega)
        _ ≤ coefficient * 10 ^ exponent := le_mul_of_one_le_left (ten_zpow_pos _).le hone
    · split
      · rename_i hsmall
        exact (ofMagnitude_of_small negative (by positivity) (mul_ten_zpow_lt hsmall)).symm
      · rfl

/-! ### Signs -/

theorem ofMagnitude_ne_nan (negative : Bool) (x : Rat) : ofMagnitude negative x ≠ .nan := by
  unfold ofMagnitude
  dsimp only
  split_ifs <;> simp [zero]

/-- Rounding keeps the sign, also where the result is zero or infinite. -/
theorem isNegative_ofMagnitude (negative : Bool) (x : Rat) :
    (ofMagnitude negative x).isNegative = negative := by
  unfold ofMagnitude
  dsimp only
  split_ifs <;> rfl

/-- The other sign rounds to the number of the other sign. -/
theorem neg_ofMagnitude (negative : Bool) (x : Rat) :
    (ofMagnitude negative x).neg = ofMagnitude (!negative) x := by
  unfold ofMagnitude
  dsimp only
  split_ifs <;> rfl

/-- The number with a positive sign if it is zero. -/
def withoutNegativeZero (x : Binary64) : Binary64 := if x = .zero true then .zero false else x

theorem withoutNegativeZero_of_ne_zero (negative : Bool) {m : Nat} {e : Int}
    (h : StandardForm m e) (hm : m ≠ 0) :
    (finite negative m e h).withoutNegativeZero = .finite negative m e h := by
  rw [withoutNegativeZero, if_neg]
  rintro ⟨⟩
  exact hm rfl

theorem ofRat_toRat_of_isFinite {x : Binary64} (h : x.isFinite = true) :
    ofRat x.toRat = x.withoutNegativeZero := by
  cases x with
  | nan => cases h
  | infinity => cases h
  | finite negative m e hstandard =>
    rw [ofRat_toRat]
    by_cases hm : m = 0
    · subst hm
      obtain rfl := exponent_of_standard_zero hstandard
      cases negative <;> rfl
    · rw [if_neg hm, withoutNegativeZero_of_ne_zero negative hstandard hm]

/-- Both zeros have one value. -/
theorem toRat_withoutNegativeZero (x : Binary64) : x.withoutNegativeZero.toRat = x.toRat := by
  unfold withoutNegativeZero
  split
  · rename_i hzero
    rw [hzero]
    simp [zero, toRat, isNegative, magnitude]
  · rfl

/-! ### Whole numbers -/

/-- A binary64 number has the given whole number as its value. -/
def HasWhole (n : Nat) : Prop := ∃ m e, StandardForm m e ∧ (n : Rat) = (m : Rat) * 2 ^ e

theorem hasWhole_of_le {n : Nat} (h : n ≤ 0x20000000000000) : HasWhole n := by
  rcases Nat.eq_zero_or_pos n with rfl | hpos
  · exact ⟨0, -1074, by decide, by simp⟩
  rcases h.eq_or_lt with rfl | hlt
  · exact ⟨0x10000000000000, 1, by decide, by norm_num⟩
  · -- The leading bit is shifted to the place of the 53rd one.
    have hlog : n.log2 < 53 := (Nat.log2_lt hpos.ne').mpr (by norm_num; exact hlt)
    obtain ⟨shift, hshift⟩ : ∃ shift, n.log2 + shift = 52 := ⟨52 - n.log2, by omega⟩
    have hlow : 2 ^ n.log2 ≤ n := Nat.log2_self_le hpos.ne'
    have hhigh : n < 2 ^ (n.log2 + 1) := Nat.lt_log2_self
    refine ⟨n * 2 ^ shift, -shift, ⟨?_, by omega, by omega, .inl ?_⟩, ?_⟩
    · calc n * 2 ^ shift < 2 ^ (n.log2 + 1) * 2 ^ shift :=
            Nat.mul_lt_mul_of_pos_right hhigh (by positivity)
        _ = 2 ^ (n.log2 + shift + 1) := by ring
        _ = 0x20000000000000 := by rw [hshift]; norm_num
    · calc 0x10000000000000 = 2 ^ (n.log2 + shift) := by rw [hshift]; norm_num
        _ = 2 ^ n.log2 * 2 ^ shift := by ring
        _ ≤ n * 2 ^ shift := Nat.mul_le_mul_right _ hlow
    · have hne : (2 : Rat) ^ shift ≠ 0 := by positivity
      push_cast
      rw [zpow_neg, zpow_natCast, mul_assoc, mul_inv_cancel₀ hne, mul_one]

theorem hasWhole_of_standard {m : Nat} {e : Nat} (h : StandardForm m e) : HasWhole (m * 2 ^ e) :=
  ⟨m, e, h, by push_cast; rw [zpow_natCast]⟩

/-- An integer that is a number already is not changed by rounding. -/
theorem ofInt_of_hasWhole {i : Int} (h : HasWhole i.natAbs) :
    (ofInt i).isFinite = true ∧ (ofInt i).toRat = i := by
  obtain ⟨m, e, hstandard, hvalue⟩ := h
  have hmagnitude : |(i : Rat)| = (m : Rat) * 2 ^ e := by
    rw [← hvalue, ← Int.cast_abs, Int.abs_eq_natAbs, Int.cast_natCast]
  rw [ofInt, ofRat]
  split
  · rename_i hnegative
    have hvalue : -(i : Rat) = (m : Rat) * 2 ^ e := by rw [← hmagnitude, abs_of_neg hnegative]
    rw [hvalue, ofMagnitude_standard true hstandard]
    refine ⟨rfl, ?_⟩
    show -((m : Rat) * 2 ^ e) = i
    rw [← hvalue, neg_neg]
  · rename_i hnonneg
    have hvalue : (i : Rat) = (m : Rat) * 2 ^ e := by
      rw [← hmagnitude, abs_of_nonneg (not_lt.mp hnonneg)]
    rw [hvalue, ofMagnitude_standard false hstandard]
    exact ⟨rfl, rfl⟩

theorem isWhole_of_toRat_eq {x : Binary64} {i : Int} (hfinite : x.isFinite = true)
    (h : x.toRat = i) : x.isWhole = true := by
  cases x with
  | finite negative m e hstandard =>
    rw [isWhole, h, Rat.den_intCast]
    rfl
  | _ => cases hfinite

end Binary64

end ColumnFormula
