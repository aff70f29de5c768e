import ColumnFormula.Proofs.Number.RoundTo
import ColumnFormula.Proofs.Number.Rounding

/-!
# Powers of ten in floating point

Repeated squaring rounds every product, so a power of ten comes out with an error, and past the
greatest number it is infinite. The error is counted in roundings: a number is `Near n v` if it has
come about from the value `v` by at most `n` roundings, each of which is off by the fraction
`2 ^ -53`. A product adds up the roundings of its factors and one of its own (`Near.mul`). Since the
loop needs at most `k` roundings for the power `k` (`near_powerLoop`), all powers up to `10 ^ 308`
are close to their value (`exists_powerOfTen_eq`), and those above are infinite
(`powerOfTen_eq_infinity`).
-/

set_option autoImplicit false
set_option relaxedAutoImplicit false

namespace ColumnFormula.Binary64

/-! ### Counting roundings -/

/-- The greatest relative error of one rounding. -/
def roundoff : Rat := 1 / 2 ^ 53

/-- A positive number that is `v` after at most `n` roundings. -/
inductive Near (n : Nat) (v : Rat) : Binary64 → Prop
  | infinity (hlarge : 2 ^ (1024 : Int) ≤ v * (1 + roundoff) ^ n) : Near n v (.infinity false)
  | finite (m : Nat) (e : Int) (standard : StandardForm m e)
      (hlow : v * (1 - roundoff) ^ n ≤ m * 2 ^ e) (hhigh : m * 2 ^ e ≤ v * (1 + roundoff) ^ n) :
      Near n v (.finite false m e standard)

theorem near_ofMagnitude {n : Nat} {v x : Rat} (hone : 1 ≤ x)
    (hlow : v * (1 - roundoff) ^ n ≤ x) (hhigh : x ≤ v * (1 + roundoff) ^ n) :
    Near (n + 1) v (ofMagnitude false x) := by
  have hpos : 0 < x := zero_lt_one.trans_le hone
  have hnormal : (2 : Rat) ^ (-1022 : Int) ≤ x :=
    (zpow_le_one_of_nonpos₀ one_le_two (by decide)).trans hone
  have herror : |rounded x - x| ≤ x * roundoff := by
    rw [roundoff, mul_one_div]
    exact abs_rounded_sub_le hnormal
  obtain ⟨hbelow, habove⟩ := abs_le.mp herror
  have hlow' : v * (1 - roundoff) ^ (n + 1) ≤ rounded x :=
    calc v * (1 - roundoff) ^ (n + 1) = v * (1 - roundoff) ^ n * (1 - roundoff) := by ring
      _ ≤ x * (1 - roundoff) := mul_le_mul_of_nonneg_right hlow (by norm_num [roundoff])
      _ ≤ rounded x := by linarith
  have hhigh' : rounded x ≤ v * (1 + roundoff) ^ (n + 1) :=
    calc rounded x ≤ x * (1 + roundoff) := by linarith
      _ ≤ v * (1 + roundoff) ^ n * (1 + roundoff) :=
        mul_le_mul_of_nonneg_right hhigh (by norm_num [roundoff])
      _ = v * (1 + roundoff) ^ (n + 1) := by ring
  have hsign := isNegative_ofMagnitude false x
  rcases ofMagnitude_cases false hpos with ⟨hfinite, hvalue⟩ | ⟨hinfinite, hlarge⟩
  · cases hresult : ofMagnitude false x with
    | finite negative m e h =>
      rw [hresult] at hvalue hsign
      obtain rfl : negative = false := hsign
      rw [← hvalue] at hlow' hhigh'
      exact .finite m e h hlow' hhigh'
    | _ =>
      rw [hresult] at hfinite
      cases hfinite
  · rw [hinfinite]
    exact .infinity (hlarge.trans hhigh')

theorem ne_zero_of_one_le {m : Nat} {e : Int} (h : (1 : Rat) ≤ m * 2 ^ e) : m ≠ 0 := by
  rintro rfl
  rw [Nat.cast_zero, zero_mul] at h
  exact h.not_gt zero_lt_one

section Product

variable {a b : Nat} {v w : Rat} {x y : Binary64}

theorem one_le_mul_roundup (h : 1 ≤ v * (1 - roundoff) ^ a) : 1 ≤ v * (1 + roundoff) ^ a := by
  have hdown : (0 : Rat) < (1 - roundoff) ^ a := pow_pos (by norm_num [roundoff]) a
  have hv : 0 < v := pos_of_mul_pos_left (zero_lt_one.trans_le h) hdown.le
  refine h.trans (mul_le_mul_of_nonneg_left ?_ hv.le)
  exact pow_le_pow_left₀ (by norm_num [roundoff]) (by norm_num [roundoff]) a

theorem near_infinity (hlarge : 2 ^ (1024 : Int) ≤ v * (1 + roundoff) ^ a)
    (hw : 1 ≤ w * (1 + roundoff) ^ b) : Near (a + b + 1) (v * w) (.infinity false) := by
  have hone : (1 : Rat) ≤ (1 + roundoff) := by norm_num [roundoff]
  have hnonneg := (two_zpow_pos 1024).le.trans hlarge
  refine .infinity ?_
  calc (2 : Rat) ^ (1024 : Int) ≤ v * (1 + roundoff) ^ a := hlarge
    _ ≤ v * (1 + roundoff) ^ a * (w * (1 + roundoff) ^ b) := le_mul_of_one_le_right hnonneg hw
    _ ≤ v * (1 + roundoff) ^ a * (w * (1 + roundoff) ^ b) * (1 + roundoff) :=
      le_mul_of_one_le_right (mul_nonneg hnonneg (zero_le_one.trans hw)) hone
    _ = v * w * (1 + roundoff) ^ (a + b + 1) := by ring

/-- A product has the roundings of its factors and one more. -/
theorem Near.mul (hx : Near a v x) (hy : Near b w y) (hv : 1 ≤ v * (1 - roundoff) ^ a)
    (hw : 1 ≤ w * (1 - roundoff) ^ b) : Near (a + b + 1) (v * w) (x * y) := by
  have hvup := one_le_mul_roundup hv
  have hwup := one_le_mul_roundup hw
  cases hx with
  | infinity hlarge =>
    cases hy with
    | infinity _ => exact near_infinity hlarge hwup
    | finite n f h hlow _ =>
      have hproduct : Binary64.infinity false * .finite false n f h = .infinity false :=
        if_neg (ne_zero_of_one_le (hw.trans hlow))
      rw [hproduct]
      exact near_infinity hlarge hwup
  | finite m e h hlow hhigh =>
    cases hy with
    | infinity hlarge =>
      have hproduct : Binary64.finite false m e h * .infinity false = .infinity false :=
        if_neg (ne_zero_of_one_le (hv.trans hlow))
      rw [hproduct, mul_comm v w, add_comm a b]
      exact near_infinity hlarge hvup
    | finite n f h' hlow' hhigh' =>
      have hone := one_le_mul_of_one_le_of_one_le (hv.trans hlow) (hw.trans hlow')
      refine near_ofMagnitude hone ?_ ?_
      · calc v * w * (1 - roundoff) ^ (a + b)
            = v * (1 - roundoff) ^ a * (w * (1 - roundoff) ^ b) := by ring
          _ ≤ m * 2 ^ e * (n * 2 ^ f) :=
            mul_le_mul hlow hlow' (zero_le_one.trans hw) (zero_le_one.trans (hv.trans hlow))
      · calc m * 2 ^ e * (n * 2 ^ f)
            ≤ v * (1 + roundoff) ^ a * (w * (1 + roundoff) ^ b) :=
            mul_le_mul hhigh hhigh' (zero_le_one.trans (hw.trans hlow')) (zero_le_one.trans hvup)
          _ = v * w * (1 + roundoff) ^ (a + b) := by ring

end Product

/-! ### Repeated squaring -/

theorem one_le_ten_pow_mul {n k : Nat} (h : n ≤ k) : 1 ≤ 10 ^ k * (1 - roundoff) ^ n := by
  obtain ⟨j, rfl⟩ := Nat.exists_eq_add_of_le h
  have hten : (10 : Rat) ^ (n + j) * (1 - roundoff) ^ n = (10 * (1 - roundoff)) ^ n * 10 ^ j := by
    rw [mul_pow, pow_add]
    ring
  rw [hten]
  exact one_le_mul_of_one_le_of_one_le (one_le_pow₀ (by norm_num [roundoff]))
    (one_le_pow₀ (by norm_num))

theorem powerLoop_zero (base product : Binary64) : powerLoop 0 base product = product := by
  rw [powerLoop, if_pos rfl]

/-- One round of the loop. -/
theorem powerLoop_of_ne_zero {k : Nat} (h : k ≠ 0) (base product : Binary64) :
    powerLoop k base product =
      powerLoop (k / 2) (base * base) (if k % 2 = 1 then product * base else product) := by
  rw [powerLoop, if_neg h]
  dsimp only
  by_cases hlast : k / 2 = 0
  · rw [if_pos hlast, hlast, powerLoop_zero]
  · rw [if_neg hlast]

/-- The base of the loop is a power of ten with fewer roundings than factors, the product one with
at most as many, and so is the result. -/
theorem near_powerLoop {k j p : Nat} {base product : Binary64} (hbase : Near j (10 ^ (j + 1)) base)
    (hproduct : Near p (10 ^ p) product) :
    Near (p + (j + 1) * k) (10 ^ (p + (j + 1) * k)) (powerLoop k base product) := by
  induction k using Nat.strong_induction_on generalizing j p base product with
  | _ k ih =>
    by_cases hzero : k = 0
    · rw [hzero, powerLoop_zero]
      exact hproduct
    · have hsquare : Near (j + j + 1) (10 ^ (j + j + 1 + 1)) (base * base) := by
        have hmul := hbase.mul hbase (one_le_ten_pow_mul j.le_succ) (one_le_ten_pow_mul j.le_succ)
        rwa [← pow_add, show j + 1 + (j + 1) = j + j + 1 + 1 by omega] at hmul
      have hnext : Near (p + (j + 1) * (k % 2)) (10 ^ (p + (j + 1) * (k % 2)))
          (if k % 2 = 1 then product * base else product) := by
        split
        · rename_i hodd
          rw [hodd, Nat.mul_one, pow_add]
          exact hproduct.mul hbase (one_le_ten_pow_mul le_rfl) (one_le_ten_pow_mul j.le_succ)
        · rename_i heven
          rw [show k % 2 = 0 by omega]
          exact hproduct
      have hexponent : p + (j + 1) * (k % 2) + (j + j + 1 + 1) * (k / 2) = p + (j + 1) * k := by
        calc p + (j + 1) * (k % 2) + (j + j + 1 + 1) * (k / 2)
            = p + (j + 1) * (k % 2 + 2 * (k / 2)) := by ring
          _ = p + (j + 1) * k := by rw [Nat.mod_add_div]
      rw [powerLoop_of_ne_zero hzero, ← hexponent]
      exact ih (k / 2) (by omega) hsquare hnext

/-- A power of ten has at most one rounding for each factor. -/
theorem near_powerOfTen (k : Nat) : Near k (10 ^ k) (powerOfTen k) := by
  have hten : ofNat 10 = .finite false 0x14000000000000 (-49) (by decide) := by decide +kernel
  have hbase : Near 0 (10 ^ (0 + 1)) (ofNat 10) := by
    rw [hten]
    exact .finite _ _ _ (by norm_num) (by norm_num)
  have hproduct : Near 0 (10 ^ 0) (ofNat 1) := by
    rw [ofNat_one]
    exact .finite _ _ _ (by norm_num) (by norm_num)
  have hloop := near_powerLoop (k := k) hbase hproduct
  rwa [Nat.zero_add, Nat.zero_add, Nat.one_mul] at hloop

/-! ### The range of the powers -/

/-- Five hundred roundings are off by less than `2 ^ -43`. -/
theorem roundings_le {k : Nat} (h : k ≤ 512) :
    1 - 1 / 2 ^ 44 ≤ (1 - roundoff) ^ k ∧ (1 + roundoff) ^ k ≤ 1 + 1 / 2 ^ 43 := by
  have hcount : (k : Rat) ≤ 512 := by exact_mod_cast h
  have hdown : 1 - 1 / 2 ^ 44 ≤ (1 - roundoff) ^ k := by
    have hbernoulli := one_add_mul_le_pow (by norm_num [roundoff] : (-2 : Rat) ≤ -roundoff) k
    rw [← sub_eq_add_neg] at hbernoulli
    refine le_trans ?_ hbernoulli
    rw [roundoff]
    linarith
  refine ⟨hdown, ?_⟩
  have hboth : (1 + roundoff) ^ k * (1 - roundoff) ^ k ≤ 1 := by
    rw [← mul_pow]
    exact pow_le_one₀ (by norm_num [roundoff]) (by norm_num [roundoff])
  have hup : (0 : Rat) ≤ (1 + roundoff) ^ k := pow_nonneg (by norm_num [roundoff]) k
  have hleast : (1 + roundoff) ^ k * (1 - 1 / 2 ^ 44) ≤ (1 + 1 / 2 ^ 43) * (1 - 1 / 2 ^ 44) :=
    calc (1 + roundoff) ^ k * (1 - 1 / 2 ^ 44)
        ≤ (1 + roundoff) ^ k * (1 - roundoff) ^ k := mul_le_mul_of_nonneg_left hdown hup
      _ ≤ 1 := hboth
      _ ≤ (1 + 1 / 2 ^ 43) * (1 - 1 / 2 ^ 44) := by norm_num
  exact le_of_mul_le_mul_right hleast (by norm_num)

/-- The limit of the range lies between two powers of ten, far from both of them. -/
theorem limit_between_powers : (10 : Rat) ^ 308 * (1 + 1 / 2 ^ 43) < 2 ^ (1024 : Int) ∧
    (2 : Rat) ^ (1024 : Int) ≤ 10 ^ 309 * (1 - 1 / 2 ^ 44) := by
  have hlimit : (2 : Rat) ^ (1024 : Int) = (2 ^ 256) ^ 4 := by
    rw [← pow_mul]
    exact zpow_natCast 2 1024
  rw [hlimit, show 308 = 154 * 2 from rfl, show 309 = 103 * 3 from rfl, pow_mul, pow_mul]
  norm_num

theorem powerOfTen_eq_infinity {k : Nat} (h : 308 < k) : powerOfTen k = .infinity false := by
  have hnear := near_powerOfTen k
  generalize powerOfTen k = power at hnear
  cases hnear with
  | infinity => rfl
  | finite m e standard hlow _ =>
    obtain ⟨j, rfl⟩ := Nat.exists_eq_add_of_le (Nat.succ_le_of_lt h)
    have hlarge : (2 : Rat) ^ (1024 : Int) ≤ m * 2 ^ e :=
      calc (2 : Rat) ^ (1024 : Int) ≤ 10 ^ 309 * (1 - 1 / 2 ^ 44) := limit_between_powers.2
        _ ≤ 10 ^ 309 * (1 - roundoff) ^ 309 :=
          mul_le_mul_of_nonneg_left (roundings_le (by decide)).1 (by positivity)
        _ ≤ 10 ^ 309 * (1 - roundoff) ^ 309 * (10 ^ j * (1 - roundoff) ^ j) :=
          le_mul_of_one_le_right (zero_le_one.trans (one_le_ten_pow_mul le_rfl))
            (one_le_ten_pow_mul le_rfl)
        _ = 10 ^ (309 + j) * (1 - roundoff) ^ (309 + j) := by
          rw [pow_add, pow_add (1 - roundoff)]
          exact mul_mul_mul_comm _ _ _ _
        _ ≤ m * 2 ^ e := hlow
    exact absurd (lt_two_zpow standard) hlarge.not_gt

theorem exists_powerOfTen_eq {k : Nat} (h : k ≤ 308) :
    ∃ m e, ∃ standard : StandardForm m e, powerOfTen k = .finite false m e standard ∧
      |(m : Rat) * 2 ^ e - 10 ^ k| ≤ 10 ^ k / 2 ^ 43 := by
  obtain ⟨hdown, hup⟩ := roundings_le (k := k) (by omega)
  have hpower : (0 : Rat) ≤ 10 ^ k := by positivity
  have hnear := near_powerOfTen k
  generalize powerOfTen k = power at hnear
  cases hnear with
  | infinity hlarge =>
    have hsmall : (10 : Rat) ^ k * (1 + roundoff) ^ k < 2 ^ (1024 : Int) :=
      calc (10 : Rat) ^ k * (1 + roundoff) ^ k
          ≤ 10 ^ k * (1 + 1 / 2 ^ 43) := mul_le_mul_of_nonneg_left hup hpower
        _ ≤ 10 ^ 308 * (1 + 1 / 2 ^ 43) :=
          mul_le_mul_of_nonneg_right (pow_le_pow_right₀ (by norm_num) h) (by norm_num)
        _ < 2 ^ (1024 : Int) := limit_between_powers.1
    exact absurd hsmall hlarge.not_gt
  | finite m e standard hlow hhigh =>
    refine ⟨m, e, standard, rfl, abs_le.mpr ⟨?_, ?_⟩⟩
    · have hleast := mul_le_mul_of_nonneg_left hdown hpower
      linarith
    · have hmost := mul_le_mul_of_nonneg_left hup hpower
      linarith

end ColumnFormula.Binary64
