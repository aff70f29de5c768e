import ColumnFormula.Number.Decimal
import Mathlib.Algebra.Order.Field.Power
import Mathlib.Data.Rat.Floor
import Mathlib.Tactic.FieldSimp
import Mathlib.Tactic.Linarith
import Mathlib.Tactic.NormNum
import Mathlib.Tactic.Positivity
import Mathlib.Tactic.Ring

/-!
# The decimal of a binary number

`Decimal.ofBinary64?` in terms of values. The factors five of a number are absorbed into its
coefficient one by one, which loses nothing as long as the coefficient fits and next to nothing
after that (`absorbFives_spec`). Digits are then dropped in three stages, each of which rounds the
result of the one before: past 28 places (`abs_dropExcess_sub_le_unit`), past the precision
(`abs_dropPrecision_sub_le_part`), and zeros, which are exact (`dropZeros_spec`). So the decimal is
close to the number but in general not equal to it (`exists_ofBinary64?_of_nonpos`). Only a number
with whole powers of two is its own decimal, unless it is out of range (`ofBinary64?_of_pos`).
-/

set_option autoImplicit false
set_option relaxedAutoImplicit false

namespace ColumnFormula.Decimal

/-! ### Factors five and two -/

/-- The part of a number that is lost at most when one factor five is absorbed. -/
def absorbLoss : Rat := 5 / 2 ^ 96

/-- Absorbing one factor five: the number does not grow, and it loses little. -/
theorem exists_absorbFives_succ (n m : Nat) (k : Int) :
    ∃ m₁ k₁, absorbFives (n + 1) m k = absorbFives n m₁ k₁ ∧ k₁ ≤ k + 1 ∧
      (m₁ : Rat) * 10 ^ k₁ ≤ 5 * (m * 10 ^ k) ∧
      (1 - absorbLoss) * (5 * (m * 10 ^ k)) ≤ (m₁ : Rat) * 10 ^ k₁ := by
  have hpower : (0 : Rat) < 10 ^ k := by positivity
  have hten : (10 : Rat) ^ (k + 1) = 10 * 10 ^ k := by
    rw [zpow_add₀ (by norm_num), zpow_one, mul_comm]
  have hloss : (0 : Rat) ≤ absorbLoss := by norm_num [absorbLoss]
  have hlost : 0 ≤ absorbLoss * (5 * (m * 10 ^ k)) := by positivity
  by_cases heven : m % 2 = 0
  · have hdouble : ((m / 2 : Nat) : Rat) * 2 = m := by exact_mod_cast (by omega : m / 2 * 2 = m)
    have hvalue : ((m / 2 : Nat) : Rat) * 10 ^ (k + 1) = 5 * (m * 10 ^ k) := by
      rw [hten, ← hdouble]
      ring
    refine ⟨m / 2, k + 1, by rw [absorbFives, if_pos heven], le_refl _, hvalue.le, ?_⟩
    rw [hvalue]
    linarith
  by_cases hfits : 5 * m < coefficientLimit
  · have hvalue : ((5 * m : Nat) : Rat) * 10 ^ k = 5 * (m * 10 ^ k) := by
      push_cast
      ring
    refine ⟨5 * m, k, by rw [absorbFives, if_neg heven, if_pos hfits], by omega, hvalue.le, ?_⟩
    rw [hvalue]
    linarith
  · -- An odd coefficient loses its last bit, but a coefficient that does not fit is large.
    have hodd : 2 * ((m / 2 : Nat) : Rat) + 1 = m := by
      exact_mod_cast (by omega : 2 * (m / 2) + 1 = m)
    have hlarge : (1 : Rat) ≤ absorbLoss * m := by
      have hlimit : (coefficientLimit : Rat) ≤ 5 * m := by exact_mod_cast Nat.not_lt.mp hfits
      norm_num [coefficientLimit, absorbLoss] at hlimit ⊢
      linarith
    have hvalue : ((m / 2 : Nat) : Rat) * 10 ^ (k + 1) = 5 * (m * 10 ^ k) - 5 * 10 ^ k := by
      rw [hten, ← hodd]
      ring
    have hscaled := mul_le_mul_of_nonneg_right hlarge hpower.le
    refine ⟨m / 2, k + 1, by rw [absorbFives, if_neg heven, if_neg hfits], le_refl _, ?_, ?_⟩
    · linarith
    · linarith

/-- What is left of a number when its fives have been absorbed. -/
theorem absorbFives_spec (n : Nat) : ∀ (m : Nat) (k : Int),
    (absorbFives n m k).2 ≤ k + n ∧
      ((absorbFives n m k).1 : Rat) * 10 ^ (absorbFives n m k).2 ≤ m * 5 ^ n * 10 ^ k ∧
      (1 - n * absorbLoss) * (m * 5 ^ n * 10 ^ k) ≤
        ((absorbFives n m k).1 : Rat) * 10 ^ (absorbFives n m k).2 := by
  induction n with
  | zero =>
    intro m k
    simp [absorbFives]
  | succ n ih =>
    intro m k
    obtain ⟨m₁, k₁, hstep, hk₁, hupper, hlower⟩ := exists_absorbFives_succ n m k
    obtain ⟨hexponent, hle, hge⟩ := ih m₁ k₁
    rw [hstep]
    have hfives : (0 : Rat) ≤ 5 ^ n := by positivity
    have hfirst_le : (m₁ : Rat) * 5 ^ n * 10 ^ k₁ ≤ m * 5 ^ (n + 1) * 10 ^ k :=
      calc (m₁ : Rat) * 5 ^ n * 10 ^ k₁ = m₁ * 10 ^ k₁ * 5 ^ n := by ring
        _ ≤ 5 * (m * 10 ^ k) * 5 ^ n := mul_le_mul_of_nonneg_right hupper hfives
        _ = m * 5 ^ (n + 1) * 10 ^ k := by ring
    have hle_first : (1 - absorbLoss) * (m * 5 ^ (n + 1) * 10 ^ k) ≤
        (m₁ : Rat) * 5 ^ n * 10 ^ k₁ :=
      calc (1 - absorbLoss) * (m * 5 ^ (n + 1) * 10 ^ k)
          = (1 - absorbLoss) * (5 * (m * 10 ^ k)) * 5 ^ n := by ring
        _ ≤ m₁ * 10 ^ k₁ * 5 ^ n := mul_le_mul_of_nonneg_right hlower hfives
        _ = (m₁ : Rat) * 5 ^ n * 10 ^ k₁ := by ring
    refine ⟨by push_cast; omega, hle.trans hfirst_le, ?_⟩
    -- The number has not grown, so neither has what the other factors may lose of it.
    have hrest := mul_le_mul_of_nonneg_left hfirst_le
      (by unfold absorbLoss; positivity : (0 : Rat) ≤ n * absorbLoss)
    push_cast
    linarith

/-- While factors two are multiplied in, the number stays the same; where that no longer fits, the
number is out of range. -/
theorem releaseFives_eq_some (n : Nat) : ∀ {m : Nat} {result : Nat × Int},
    releaseFives n m n = some result → result = (m * 2 ^ n, 0) := by
  induction n with
  | zero =>
    intro m result h
    simpa [releaseFives, eq_comm] using h
  | succ n ih =>
    intro m result h
    have hexponent : ((n + 1 : Nat) : Int) - 1 = n := by omega
    rw [releaseFives] at h
    split at h
    · rw [hexponent] at h
      rw [ih h, pow_succ]
      ring_nf
    · rw [if_pos (by push_cast; omega)] at h
      cases h

/-! ### Dropping digits -/

/-- The value of a coefficient with a number of decimal places. -/
def placed (parts : Nat × Nat) : Rat := (parts.1 : Rat) / 10 ^ parts.2

theorem placed_nonneg (parts : Nat × Nat) : 0 ≤ placed parts := by
  unfold placed
  positivity

theorem dropDigit_spec (m : Nat) :
    m ≤ 10 * dropDigit m + 4 ∧ 10 * dropDigit m ≤ m + 5 := by
  unfold dropDigit
  split <;> omega

/-- A whole bound on the number bounds what is left of it, too. -/
theorem dropDigit_le {m bound places : Nat} (h : m ≤ bound * 10 ^ (places + 1)) :
    dropDigit m ≤ bound * 10 ^ places := by
  have hpow : bound * 10 ^ (places + 1) = 10 * (bound * 10 ^ places) := by ring
  have hspec := dropDigit_spec m
  omega

theorem one_div_ten_pow_sub_succ (places : Nat) :
    (1 : Rat) / 10 ^ places - 1 / 10 ^ (places + 1) = 9 / 10 ^ (places + 1) := by
  rw [pow_succ]
  field_simp
  norm_num

/-- Dropping a digit is an error of less than nine units of that digit. -/
theorem abs_dropDigit_sub_le (m places : Nat) :
    |placed (dropDigit m, places) - placed (m, places + 1)| ≤
      1 / 10 ^ places - 1 / 10 ^ (places + 1) := by
  obtain ⟨hlow, hhigh⟩ := dropDigit_spec m
  have hlow' : (m : Rat) ≤ 10 * dropDigit m + 4 := by exact_mod_cast hlow
  have hhigh' : 10 * (dropDigit m : Rat) ≤ m + 5 := by exact_mod_cast hhigh
  have hunit : (0 : Rat) < 10 ^ (places + 1) := by positivity
  have herror : placed (dropDigit m, places) - placed (m, places + 1) =
      (10 * dropDigit m - m) / 10 ^ (places + 1) := by
    rw [placed, placed, pow_succ]
    field_simp
  rw [herror, one_div_ten_pow_sub_succ, abs_div, abs_of_pos hunit]
  exact div_le_div_of_nonneg_right (abs_le.mpr ⟨by linarith, by linarith⟩) hunit.le

theorem one_div_ten_pow_le {first second : Nat} (h : first ≤ second) :
    (1 : Rat) / 10 ^ second ≤ 1 / 10 ^ first :=
  one_div_le_one_div_of_le (by positivity) (pow_le_pow_right₀ (by norm_num) h)

/-- Digits past the places there are: the error is less than a unit of the last place. -/
theorem abs_dropExcess_sub_le (excess : Nat) : ∀ m places : Nat,
    |placed (dropExcess excess m places) - placed (m, places + excess)| ≤
      1 / 10 ^ places - 1 / 10 ^ (places + excess) := by
  induction excess with
  | zero => simp [dropExcess]
  | succ excess ih =>
    intro m places
    rw [dropExcess]
    split
    · -- A single digit is left, and it is dropped without rounding.
      rename_i hsmall
      have hdigit : (m : Rat) ≤ 9 := by exact_mod_cast (by omega : m ≤ 9)
      have hunit : (0 : Rat) < 10 ^ (places + (excess + 1)) := by positivity
      have hvalue : placed (m, places + (excess + 1)) ≤ 9 / 10 ^ (places + (excess + 1)) :=
        div_le_div_of_nonneg_right hdigit hunit.le
      have hnine := one_div_ten_pow_sub_succ (places + excess)
      rw [add_assoc] at hnine
      have hle := one_div_ten_pow_le (Nat.le_add_right places excess)
      have hzero : placed (0, 0) = 0 := by simp [placed]
      rw [hzero, zero_sub, abs_neg, abs_of_nonneg (placed_nonneg _)]
      linarith
    · have hfirst := abs_dropDigit_sub_le m (places + excess)
      have hrest := ih (dropDigit m) places
      have htriangle := abs_sub_le (placed (dropExcess excess (dropDigit m) places))
        (placed (dropDigit m, places + excess)) (placed (m, places + (excess + 1)))
      rw [add_assoc] at hfirst
      linarith

theorem dropExcess_le {bound : Nat} (excess : Nat) : ∀ {m places : Nat},
    m ≤ bound * 10 ^ (places + excess) →
      (dropExcess excess m places).1 ≤ bound * 10 ^ (dropExcess excess m places).2 ∧
        (dropExcess excess m places).2 ≤ places := by
  induction excess with
  | zero => exact fun h ↦ ⟨h, Nat.le_refl _⟩
  | succ excess ih =>
    intro m places h
    rw [dropExcess]
    split
    · exact ⟨Nat.zero_le _, Nat.zero_le _⟩
    · exact ih (dropDigit_le h)

/-- Digits past the precision: the error is less than a unit of the last place that is kept. -/
theorem abs_dropPrecision_sub_le (places : Nat) : ∀ m : Nat,
    |placed (dropPrecision m places) - placed (m, places)| ≤
      1 / 10 ^ (dropPrecision m places).2 - 1 / 10 ^ places := by
  induction places with
  | zero => simp [dropPrecision]
  | succ places ih =>
    intro m
    rw [dropPrecision]
    split
    · have hfirst := abs_dropDigit_sub_le m places
      have hrest := ih (dropDigit m)
      have htriangle := abs_sub_le (placed (dropPrecision (dropDigit m) places))
        (placed (dropDigit m, places)) (placed (m, places + 1))
      linarith
    · simp

theorem dropPrecision_le {bound : Nat} (places : Nat) : ∀ {m : Nat}, m ≤ bound * 10 ^ places →
    (dropPrecision m places).1 ≤ bound * 10 ^ (dropPrecision m places).2 ∧
      (dropPrecision m places).2 ≤ places := by
  induction places with
  | zero => exact fun h ↦ ⟨h, Nat.le_refl _⟩
  | succ places ih =>
    intro m h
    rw [dropPrecision]
    split
    · exact (ih (dropDigit_le h)).imp_right Nat.le_succ_of_le
    · exact ⟨h, Nat.le_refl _⟩

/-- What is left either has no places or fits the precision. -/
theorem dropPrecision_fits (places : Nat) : ∀ m : Nat,
    (dropPrecision m places).2 = 0 ∨ (dropPrecision m places).1 < 0x10000000000000 := by
  induction places with
  | zero => exact fun m ↦ .inl rfl
  | succ places ih =>
    intro m
    rw [dropPrecision]
    split
    · exact ih _
    · exact .inr (by omega)

/-- A tenth of `2 ^ 52` is left where digits are dropped for the precision. -/
theorem le_dropPrecision (places : Nat) : ∀ {m : Nat}, 450359962737049 ≤ m →
    450359962737049 ≤ (dropPrecision m places).1 := by
  induction places with
  | zero => exact fun h ↦ h
  | succ places ih =>
    intro m h
    rw [dropPrecision]
    split
    · have hspec := dropDigit_spec m
      exact ih (by omega)
    · exact h

theorem dropPrecision_eq_or_le (m places : Nat) :
    dropPrecision m places = (m, places) ∨ 450359962737049 ≤ (dropPrecision m places).1 := by
  cases places with
  | zero => exact .inl rfl
  | succ places =>
    rw [dropPrecision]
    split
    · have hspec := dropDigit_spec m
      exact .inr (le_dropPrecision places (by omega))
    · exact .inl rfl

/-- Dropping zeros changes no value. -/
theorem dropZeros_spec (places : Nat) : ∀ m : Nat,
    placed (dropZeros m places) = placed (m, places) ∧ (dropZeros m places).1 ≤ m ∧
      (dropZeros m places).2 ≤ places := by
  induction places with
  | zero => exact fun m ↦ ⟨rfl, Nat.le_refl _, Nat.le_refl _⟩
  | succ places ih =>
    intro m
    rw [dropZeros]
    split
    · rename_i hzero
      obtain ⟨hvalue, hle, hplaces⟩ := ih (m / 10)
      refine ⟨hvalue.trans ?_, by omega, by omega⟩
      have hten : ((m / 10 : Nat) : Rat) * 10 = m := by
        exact_mod_cast (by omega : m / 10 * 10 = m)
      rw [placed, placed, ← hten, pow_succ]
      field_simp
    · exact ⟨rfl, Nat.le_refl _, Nat.le_refl _⟩

/-- Where the places are limited to 28 the error is less than a unit of the last one. -/
theorem abs_dropExcess_sub_le_unit (m n : Nat) :
    |placed (dropExcess (n - 28) m (min n 28)) - placed (m, n)| ≤ 1 / 10 ^ 28 := by
  have hsplit : min n 28 + (n - 28) = n := by omega
  have herror := abs_dropExcess_sub_le (n - 28) m (min n 28)
  rw [hsplit] at herror
  rcases Nat.le_total n 28 with hle | hge
  · rw [Nat.min_eq_left hle, sub_self] at herror
    rw [Nat.min_eq_left hle]
    exact herror.trans (by positivity)
  · rw [Nat.min_eq_right hge] at herror ⊢
    have hunit : (0 : Rat) < 1 / 10 ^ n := by positivity
    linarith

/-- Where digits are dropped for the precision, enough of them are left for a small relative
error. -/
theorem abs_dropPrecision_sub_le_part (m places : Nat) :
    |placed (dropPrecision m places) - placed (m, places)| ≤
      placed (dropPrecision m places) / 450359962737049 := by
  have herror := abs_dropPrecision_sub_le places m
  rcases dropPrecision_eq_or_le m places with heq | hlead
  · rw [heq, sub_self, abs_zero]
    exact div_nonneg (placed_nonneg _) (by norm_num)
  · generalize dropPrecision m places = kept at *
    have hunit : (0 : Rat) < 1 / 10 ^ places := by positivity
    have hlead' : (450359962737049 : Rat) ≤ kept.1 := by exact_mod_cast hlead
    have hone : (1 : Rat) ≤ kept.1 / 450359962737049 := by
      rw [le_div_iff₀ (by norm_num)]
      linarith
    calc |placed kept - placed (m, places)| ≤ 1 / 10 ^ kept.2 := by linarith
      _ ≤ kept.1 / 450359962737049 / 10 ^ kept.2 :=
        div_le_div_of_nonneg_right hone (by positivity)
      _ = placed kept / 450359962737049 := div_right_comm _ _ _

/-- Shortening a number of at most 53 bits before the point leaves a coefficient of 53 bits. -/
theorem shorten_spec {m n : Nat} (h : m ≤ 0x20000000000000 * 10 ^ n) :
    (shorten m (-n)).2 ≤ 28 ∧ (shorten m (-n)).1 ≤ 0x20000000000000 ∧
      |placed (shorten m (-n)) - placed (m, n)| ≤
        placed (shorten m (-n)) / 450359962737049 + 1 / 10 ^ 28 := by
  rcases Nat.eq_zero_or_pos n with rfl | hpos
  · have hwhole : shorten m (-(0 : Nat)) = (m, 0) := by simp [shorten]
    rw [hwhole, sub_self, abs_zero]
    have hnonneg := placed_nonneg (m, 0)
    exact ⟨by omega, by simpa using h, by positivity⟩
  -- The three stages one after the other, each with what it may do to the value.
  have hexcess := abs_dropExcess_sub_le_unit m n
  have hsplit : min n 28 + (n - 28) = n := by omega
  rw [← hsplit] at h
  obtain ⟨hexcessLe, hexcessPlaces⟩ := dropExcess_le (n - 28) h
  have hshort : shorten m (-n) =
      let limited := dropExcess (n - 28) m (min n 28)
      let kept := dropPrecision limited.1 limited.2
      dropZeros kept.1 kept.2 := by
    rw [shorten, if_neg (by omega), neg_neg]
    rfl
  rw [hshort]
  generalize dropExcess (n - 28) m (min n 28) = limited at *
  have hprecision := abs_dropPrecision_sub_le_part limited.1 limited.2
  obtain ⟨hkeptLe, hkeptPlaces⟩ := dropPrecision_le limited.2 hexcessLe
  have hfits := dropPrecision_fits limited.2 limited.1
  dsimp only
  generalize dropPrecision limited.1 limited.2 = kept at *
  obtain ⟨hvalue, hcoefficient, hplaces⟩ := dropZeros_spec kept.2 kept.1
  have hkept : placed (dropZeros kept.1 kept.2) = placed kept := hvalue
  refine ⟨by omega, ?_, ?_⟩
  · rcases hfits with hnone | hsmall
    · rw [hnone, pow_zero, mul_one] at hkeptLe
      exact hcoefficient.trans hkeptLe
    · omega
  · rw [hkept]
    have htriangle := abs_sub_le (placed kept) (placed limited) (placed (m, n))
    have hpart : |placed kept - placed limited| ≤ placed kept / 450359962737049 := hprecision
    linarith

/-! ### The decimal of a binary number -/

theorem five_pow_mul_ten_zpow (n : Nat) : (5 : Rat) ^ n * 10 ^ (-(n : Int)) = 2 ^ (-(n : Int)) := by
  have hten : (10 : Rat) ^ n = 5 ^ n * 2 ^ n := by
    rw [← mul_pow]
    norm_num
  rw [zpow_neg, zpow_neg, zpow_natCast, zpow_natCast, hten]
  field_simp

/-- Absorbing the fives of a standard number that is divided by a power of two. -/
theorem exists_absorbFives_of_standard {m n : Nat} (hstandard : StandardForm m (-n)) :
    ∃ coefficient places : Nat, absorbFives n m (-n) = (coefficient, -(places : Int)) ∧
      coefficient ≤ 0x20000000000000 * 10 ^ places ∧
      placed (coefficient, places) ≤ m * 2 ^ (-(n : Int)) ∧
      (1 - 1 / 2 ^ 83) * (m * 2 ^ (-(n : Int))) ≤ placed (coefficient, places) := by
  obtain ⟨hbits, hleast, -, -⟩ := hstandard
  obtain ⟨hexponent, hupper, hlower⟩ := absorbFives_spec n m (-n)
  obtain ⟨places, hplaces⟩ : ∃ places : Nat, (absorbFives n m (-n)).2 = -(places : Int) :=
    ⟨(-(absorbFives n m (-n)).2).toNat, by omega⟩
  have hplaced : ((absorbFives n m (-n)).1 : Rat) * 10 ^ (-(places : Int)) =
      placed ((absorbFives n m (-n)).1, places) := by
    rw [placed, zpow_neg, zpow_natCast, div_eq_mul_inv]
  rw [hplaces, hplaced, mul_assoc, five_pow_mul_ten_zpow] at hupper hlower
  refine ⟨(absorbFives n m (-n)).1, places, Prod.ext rfl hplaces, ?_, hupper, ?_⟩
  · have hpower : (2 : Rat) ^ (-(n : Int)) ≤ 1 :=
      zpow_le_one_of_nonpos₀ (by norm_num) (by omega)
    have hwhole : placed ((absorbFives n m (-n)).1, places) ≤ 0x20000000000000 :=
      calc placed ((absorbFives n m (-n)).1, places) ≤ m * 2 ^ (-(n : Int)) := hupper
        _ ≤ m * 1 := mul_le_mul_of_nonneg_left hpower (Nat.cast_nonneg m)
        _ ≤ 0x20000000000000 := by
          rw [mul_one]
          exact_mod_cast hbits.le
    rw [placed, div_le_iff₀ (by positivity)] at hwhole
    exact_mod_cast hwhole
  · refine le_trans (mul_le_mul_of_nonneg_right ?_ (by positivity)) hlower
    have hn : (n : Rat) ≤ 1074 := by exact_mod_cast (by omega : n ≤ 1074)
    norm_num [absorbLoss]
    linarith

/-- A number divided by a power of two has a decimal that is close to it. -/
theorem exists_ofBinary64?_of_nonpos (negative : Bool) {m n : Nat}
    (hstandard : StandardForm m (-n)) :
    ∃ d, ofBinary64? (.finite negative m (-n) hstandard) = some d ∧ d.negative = negative ∧
      d.coefficient ≤ 0x20000000000000 ∧
      |d.magnitude - m * 2 ^ (-(n : Int))| ≤ m * 2 ^ (-(n : Int)) / 2 ^ 48 + 2 / 10 ^ 28 := by
  by_cases hm : m = 0
  · subst hm
    refine ⟨zero negative, by rw [ofBinary64?, if_pos rfl], rfl, Nat.zero_le _, ?_⟩
    simp only [magnitude, zero, Nat.cast_zero, zero_div, zero_mul, sub_zero, abs_zero]
    positivity
  obtain ⟨coefficient, places, habsorbed, hbound, hupper, hlower⟩ :=
    exists_absorbFives_of_standard hstandard
  have hform : ofBinary64? (.finite negative m (-n) hstandard) =
      ofParts? negative (shorten coefficient (-places)).1 (shorten coefficient (-places)).2 := by
    rw [ofBinary64?, if_neg hm, if_pos (by omega), neg_neg, Int.toNat_natCast, habsorbed]
    rfl
  obtain ⟨hscale, hcoefficient, herror⟩ := shorten_spec hbound
  have hnonneg := placed_nonneg (shorten coefficient (-places))
  rw [hform]
  generalize shorten coefficient (-places) = short at *
  have hfits : short.1 < coefficientLimit := hcoefficient.trans_lt (by decide)
  have hmagnitude : magnitude ⟨negative, short.1, short.2, hfits, hscale⟩ = placed short := rfl
  refine ⟨_, dif_pos ⟨hfits, hscale⟩, rfl, hcoefficient, ?_⟩
  rw [hmagnitude]
  obtain ⟨hbelow, habove⟩ := abs_le.mp herror
  generalize (m : Rat) * 2 ^ (-(n : Int)) = exact at *
  exact abs_le.mpr ⟨by linarith, by linarith⟩

/-- A number with whole powers of two is its own decimal, if it is in range. -/
theorem ofBinary64?_of_pos {negative : Bool} {m n : Nat} (hpos : 0 < n)
    (hstandard : StandardForm m n) {d : Decimal}
    (h : ofBinary64? (.finite negative m n hstandard) = some d) :
    d.negative = negative ∧ d.scale = 0 ∧ d.coefficient = m * 2 ^ n := by
  have hm : m ≠ 0 := by
    obtain ⟨-, -, -, hlead⟩ := hstandard
    omega
  rw [ofBinary64?, if_neg hm, if_neg (by omega), Int.toNat_natCast] at h
  obtain ⟨result, hrelease, hparts⟩ := Option.bind_eq_some_iff.mp h
  obtain rfl := releaseFives_eq_some n hrelease
  have hshort : shorten (m * 2 ^ n) 0 = (m * 2 ^ n, 0) := by simp [shorten]
  simp only [hshort, ofParts?] at hparts
  split at hparts
  · cases hparts
    exact ⟨rfl, rfl, rfl⟩
  · cases hparts

end ColumnFormula.Decimal
