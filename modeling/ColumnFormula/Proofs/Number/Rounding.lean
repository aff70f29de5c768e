import ColumnFormula.Proofs.Number.Magnitude

/-!
# Rounding, order and error

Rounding a magnitude goes to the nearest point of a grid whose step grows with the magnitude
(`rounded`), and only afterwards the range is checked (`ofMagnitude_cases`). Two things are known of
the result. No number is passed on the way: what is at most a number rounds to at most that number,
and what is at least a number rounds to at least that number (`rounded_le`, `le_rounded`). And the
result is off by at most the fraction `2 ^ -53` of the magnitude, unless that is smaller than all
numbers with a leading bit (`abs_rounded_sub_le`).
-/

set_option autoImplicit false
set_option relaxedAutoImplicit false

namespace ColumnFormula

/-! ### The nearest whole number -/

theorem Tie.le_resolve (tie : Tie) (lower : Nat) : lower ≤ tie.resolve lower := by
  cases tie <;> simp [resolve]

theorem floor_le_nearest (tie : Tie) (x : Rat) : x.floor.toNat ≤ nearest tie x := by
  unfold nearest
  dsimp only
  split
  · exact le_refl _
  · split
    · exact Nat.le_succ _
    · exact tie.le_resolve _

theorem nearest_le_floor_succ (tie : Tie) (x : Rat) : nearest tie x ≤ x.floor.toNat + 1 := by
  unfold nearest
  dsimp only
  split
  · exact Nat.le_succ _
  · split
    · exact le_refl _
    · exact tie.resolve_le _

theorem le_nearest (tie : Tie) {x : Rat} {n : Nat} (h : (n : Rat) ≤ x) : n ≤ nearest tie x := by
  have hfloor : (n : Int) ≤ ⌊x⌋ := Int.le_floor.mpr (by exact_mod_cast h)
  have hrat : (n : Int) ≤ x.floor := hfloor
  exact le_trans (by omega) (floor_le_nearest tie x)

theorem nearest_le (tie : Tie) {x : Rat} {n : Nat} (hnonneg : 0 ≤ x) (h : x ≤ n) :
    nearest tie x ≤ n := by
  rcases h.eq_or_lt with rfl | hlt
  · exact (nearest_natCast tie n).le
  · have hfloor : ⌊x⌋ < (n : Int) := Int.floor_lt.mpr (by exact_mod_cast hlt)
    have hrat : x.floor < (n : Int) := hfloor
    have hpos : (0 : Rat) < n := hnonneg.trans_lt hlt
    have hn : 0 < n := by exact_mod_cast hpos
    exact (nearest_le_floor_succ tie x).trans (by omega)

theorem abs_nearest_sub_le (tie : Tie) {x : Rat} (hnonneg : 0 ≤ x) :
    |(nearest tie x : Rat) - x| ≤ 1 / 2 := by
  obtain ⟨lower, hlower⟩ := Int.eq_ofNat_of_zero_le (Int.floor_nonneg.mpr hnonneg)
  have hlow := Int.floor_le x
  have hhigh := Int.lt_floor_add_one x
  rw [hlower, Int.cast_natCast] at hlow hhigh
  have hfloor : x.floor.toNat = lower := congrArg Int.toNat hlower
  unfold nearest
  rw [hfloor]
  dsimp only
  split
  · rename_i hbelow
    rw [abs_sub_comm, abs_of_nonneg (by linarith)]
    exact hbelow.le
  · rename_i hnotBelow
    split
    · push_cast
      rw [abs_of_nonneg (by linarith)]
      linarith
    · rename_i hnotAbove
      have hresolve : tie.resolve lower = lower ∨ tie.resolve lower = lower + 1 := by
        have hleast := tie.le_resolve lower
        have hmost := tie.resolve_le lower
        omega
      rcases hresolve with heq | heq
      · rw [heq, abs_sub_comm, abs_of_nonneg (by linarith)]
        exact not_lt.mp hnotAbove
      · rw [heq]
        push_cast
        rw [abs_of_nonneg (by linarith)]
        linarith

namespace Binary64

theorem magnitude_finite (negative : Bool) {m : Nat} {e : Int} (h : StandardForm m e) :
    (finite negative m e h).magnitude = m * 2 ^ e := rfl

theorem mul_two_zpow_nonneg (m : Nat) (e : Int) : (0 : Rat) ≤ m * 2 ^ e :=
  mul_nonneg (Nat.cast_nonneg m) (two_zpow_pos e).le

/-! ### Rounding on a grid -/

/-- The grid point nearest to a positive rational. -/
def rounded (x : Rat) : Rat := nearest .toEven (x / 2 ^ unitExponent x) * 2 ^ unitExponent x

theorem unitExponent_mono {x y : Rat} (hx : 0 < x) (h : x ≤ y) :
    unitExponent x ≤ unitExponent y := by
  have hexponent := le_binaryExponent (hx.trans_le h) ((binaryExponent_spec hx).1.trans h)
  unfold unitExponent
  omega

/-- A magnitude has less than 53 bits before the end of its unit. -/
theorem div_unit_lt {x : Rat} (hx : 0 < x) : x / 2 ^ unitExponent x < 2 ^ (53 : Int) := by
  rw [div_lt_iff₀ (two_zpow_pos _), ← zpow_add₀ two_ne_zero]
  refine (binaryExponent_spec hx).2.trans_le (zpow_le_zpow_right₀ one_le_two ?_)
  unfold unitExponent
  omega

/-- A magnitude with a leading bit has all of the 53 bits. -/
theorem le_div_unit {x : Rat} (hx : 0 < x) (h : unitExponent x ≠ -1074) :
    2 ^ (52 : Int) ≤ x / 2 ^ unitExponent x := by
  rw [le_div_iff₀ (two_zpow_pos _), ← zpow_add₀ two_ne_zero]
  refine (zpow_le_zpow_right₀ one_le_two ?_).trans (binaryExponent_spec hx).1
  unfold unitExponent at h ⊢
  omega

theorem significand_le {x : Rat} (hx : 0 < x) :
    nearest .toEven (x / 2 ^ unitExponent x) ≤ 0x20000000000000 := by
  refine nearest_le _ (div_nonneg hx.le (two_zpow_pos _).le) ?_
  have hlt := div_unit_lt hx
  norm_num at hlt ⊢
  exact hlt.le

theorem le_significand {x : Rat} (hx : 0 < x) (h : unitExponent x ≠ -1074) :
    0x10000000000000 ≤ nearest .toEven (x / 2 ^ unitExponent x) := by
  refine le_nearest _ ?_
  have hle := le_div_unit hx h
  norm_num at hle ⊢
  exact hle

theorem neg_1074_le_unitExponent (x : Rat) : -1074 ≤ unitExponent x := le_max_right _ _

theorem two_zpow_le_mul {j k e : Int} {x : Rat} (hx : 2 ^ j ≤ x) (h : k ≤ j + e) :
    (2 : Rat) ^ k ≤ x * 2 ^ e :=
  calc (2 : Rat) ^ k ≤ 2 ^ (j + e) := zpow_le_zpow_right₀ one_le_two h
    _ = 2 ^ j * 2 ^ e := zpow_add₀ two_ne_zero j e
    _ ≤ x * 2 ^ e := mul_le_mul_of_nonneg_right hx (two_zpow_pos e).le

theorem mul_two_zpow_lt {j k e : Int} {x : Rat} (hx : x < 2 ^ j) (h : j + e ≤ k) :
    x * 2 ^ e < (2 : Rat) ^ k :=
  calc x * 2 ^ e < 2 ^ j * 2 ^ e := mul_lt_mul_of_pos_right hx (two_zpow_pos e)
    _ = 2 ^ (j + e) := (zpow_add₀ two_ne_zero j e).symm
    _ ≤ 2 ^ k := zpow_le_zpow_right₀ one_le_two h

theorem significand_lt_two_zpow {m : Nat} (h : m < 0x20000000000000) :
    (m : Rat) < 2 ^ (53 : Int) := by
  have hcast : (m : Rat) < (0x20000000000000 : Nat) := by exact_mod_cast h
  norm_num at hcast ⊢
  exact hcast

theorem two_zpow_le_significand {m : Nat} (h : 0x10000000000000 ≤ m) :
    2 ^ (52 : Int) ≤ (m : Rat) := by
  have hcast : ((0x10000000000000 : Nat) : Rat) ≤ m := by exact_mod_cast h
  norm_num at hcast ⊢
  exact hcast

theorem lt_two_zpow {m : Nat} {e : Int} (h : StandardForm m e) :
    (m : Rat) * 2 ^ e < 2 ^ (1024 : Int) := by
  obtain ⟨hbits, -, hgreatest, -⟩ := h
  exact mul_two_zpow_lt (significand_lt_two_zpow hbits) (by omega)

/-- Rounding gives the nearest grid point if it is in range, and an infinity otherwise. -/
theorem ofMagnitude_cases (negative : Bool) {x : Rat} (hx : 0 < x) :
    ((ofMagnitude negative x).isFinite = true ∧
      (ofMagnitude negative x).magnitude = rounded x) ∨
    (ofMagnitude negative x = .infinity negative ∧ 2 ^ (1024 : Int) ≤ rounded x) := by
  have hsmall := significand_le hx
  have hlarge := le_significand hx
  have hleast := neg_1074_le_unitExponent x
  unfold ofMagnitude rounded
  rw [if_neg hx.ne']
  dsimp only
  generalize unitExponent x = e at *
  generalize nearest .toEven (x / 2 ^ e) = m at *
  split
  · exact .inl ⟨rfl, rfl⟩
  · rename_i hcarry
    unfold StandardForm at hcarry
    split
    · -- The significand was rounded up to 54 bits.
      rename_i hstandard
      have hgreatest := hstandard.2.2.1
      obtain rfl : m = 0x20000000000000 := by omega
      refine .inl ⟨rfl, (magnitude_finite negative hstandard).trans ?_⟩
      rw [zpow_add_one₀ two_ne_zero]
      norm_num
      ring
    · rename_i hrange
      unfold StandardForm at hrange
      refine .inr ⟨rfl, ?_⟩
      by_cases hgreatest : e ≤ 971
      · obtain rfl : m = 0x20000000000000 := by omega
        have hcast : (2 : Rat) ^ (53 : Int) ≤ (0x20000000000000 : Nat) := by norm_num
        exact two_zpow_le_mul hcast (by omega)
      · exact two_zpow_le_mul (two_zpow_le_significand (hlarge (by omega))) (by omega)

/-! ### Rounding passes no number -/

variable {x : Rat} {m : Nat} {e : Int}

theorem rounded_le (hx : 0 < x) (h : StandardForm m e) (hle : x ≤ m * 2 ^ e) :
    rounded x ≤ m * 2 ^ e := by
  have hm : m ≠ 0 := by
    rintro rfl
    rw [Nat.cast_zero, zero_mul] at hle
    exact hle.not_gt hx
  have hunit : unitExponent x ≤ e :=
    (unitExponent_mono hx hle).trans_eq (unitExponent_standard h hm)
  -- On the finer grid of `x` the number is a whole multiple of the step.
  obtain ⟨k, hk⟩ : ∃ k : Nat, e = k + unitExponent x := ⟨(e - unitExponent x).toNat, by omega⟩
  have hvalue : (m : Rat) * 2 ^ e = (m * 2 ^ k : Nat) * 2 ^ unitExponent x := by
    rw [hk, zpow_add₀ two_ne_zero, zpow_natCast]
    push_cast
    ring
  rw [hvalue] at hle ⊢
  refine mul_le_mul_of_nonneg_right ?_ (two_zpow_pos _).le
  have hquotient : x / 2 ^ unitExponent x ≤ (m * 2 ^ k : Nat) :=
    (div_le_iff₀ (two_zpow_pos _)).mpr hle
  exact_mod_cast nearest_le .toEven (div_nonneg hx.le (two_zpow_pos _).le) hquotient

theorem le_rounded (hx : 0 < x) (h : StandardForm m e) (hle : m * 2 ^ e ≤ x) :
    m * 2 ^ e ≤ rounded x := by
  by_cases hm : m = 0
  · subst hm
    rw [Nat.cast_zero, zero_mul, rounded]
    exact mul_two_zpow_nonneg _ _
  have hpos : (0 : Rat) < m * 2 ^ e :=
    mul_pos (by exact_mod_cast Nat.pos_of_ne_zero hm) (two_zpow_pos e)
  have hunit : e ≤ unitExponent x :=
    (unitExponent_standard h hm).symm.trans_le (unitExponent_mono hpos hle)
  rcases hunit.eq_or_lt with heq | hlt
  · rw [heq] at hle ⊢
    refine mul_le_mul_of_nonneg_right ?_ (two_zpow_pos _).le
    exact_mod_cast le_nearest .toEven ((le_div_iff₀ (two_zpow_pos _)).mpr hle)
  · -- The leading bit of the rounded magnitude alone outweighs the number.
    obtain ⟨hbits, hleast, -, -⟩ := h
    refine (mul_two_zpow_lt (significand_lt_two_zpow hbits) (le_refl (53 + e))).le.trans ?_
    exact two_zpow_le_mul (two_zpow_le_significand (le_significand hx (by omega))) (by omega)

/-- What is at most a number rounds to at most that number. -/
theorem ofMagnitude_le (negative : Bool) (hx : 0 ≤ x) (h : StandardForm m e)
    (hle : x ≤ m * 2 ^ e) :
    (ofMagnitude negative x).isFinite = true ∧ (ofMagnitude negative x).magnitude ≤ m * 2 ^ e := by
  rcases hx.eq_or_lt with rfl | hpos
  · rw [ofMagnitude, if_pos rfl]
    refine ⟨rfl, ?_⟩
    simpa [zero, magnitude] using hle
  · have hrounded := rounded_le hpos h hle
    rcases ofMagnitude_cases negative hpos with ⟨hfinite, hvalue⟩ | ⟨-, hlarge⟩
    · exact ⟨hfinite, hvalue.trans_le hrounded⟩
    · exact absurd (lt_two_zpow h) (hlarge.trans hrounded).not_gt

/-! ### Numbers that are not small -/

/-- Infinite, or finite with a magnitude of at least `2 ^ k`. -/
inductive AtLeast (k : Int) : Binary64 → Prop
  | infinity (negative : Bool) : AtLeast k (.infinity negative)
  | finite {x : Binary64} (hfinite : x.isFinite = true) (hle : 2 ^ k ≤ x.magnitude) : AtLeast k x

theorem AtLeast.isZero {k : Int} {y : Binary64} (h : AtLeast k y) : y.isZero = false := by
  cases h with
  | infinity => rfl
  | finite hfinite hle =>
    cases y with
    | finite negative m e hstandard =>
      refine beq_eq_false_iff_ne.mpr ?_
      rintro rfl
      rw [magnitude_finite, Nat.cast_zero, zero_mul] at hle
      exact hle.not_gt (two_zpow_pos k)
    | _ => cases hfinite

theorem atLeast_ofMagnitude (negative : Bool) {k : Int} (hleast : -1022 ≤ k) (hgreatest : k ≤ 1023)
    (hle : 2 ^ k ≤ x) : AtLeast k (ofMagnitude negative x) := by
  have hpower : StandardForm 0x10000000000000 (k - 52) :=
    ⟨by decide, by omega, by omega, .inl (by decide)⟩
  have hvalue : ((0x10000000000000 : Nat) : Rat) * 2 ^ (k - 52) = 2 ^ k := by
    rw [zpow_sub₀ two_ne_zero]
    norm_num
    ring
  have hpos : 0 < x := (two_zpow_pos k).trans_le hle
  have hrounded := le_rounded hpos hpower (hvalue.trans_le hle)
  rw [hvalue] at hrounded
  rcases ofMagnitude_cases negative hpos with ⟨hfinite, hmagnitude⟩ | ⟨hinfinite, -⟩
  · exact .finite hfinite (hrounded.trans_eq hmagnitude.symm)
  · rw [hinfinite]
    exact .infinity negative

theorem AtLeast.mul {j k : Int} {y z : Binary64} (hy : AtLeast j y) (hz : AtLeast k z)
    (hleast : -1022 ≤ j + k) (hgreatest : j + k ≤ 1023) : AtLeast (j + k) (y * z) := by
  have hyne := hy.isZero
  have hzne := hz.isZero
  cases hy with
  | infinity a =>
    cases hz with
    | infinity b => exact .infinity (a != b)
    | finite hzfinite _ =>
      cases z with
      | finite b n f hn =>
        have hproduct : Binary64.infinity a * .finite b n f hn = .infinity (a != b) :=
          if_neg (beq_eq_false_iff_ne.mp hzne)
        exact hproduct ▸ .infinity (a != b)
      | _ => cases hzfinite
  | finite hyfinite hyle =>
    cases y with
    | finite a m e hm =>
      cases hz with
      | infinity b =>
        have hproduct : Binary64.finite a m e hm * .infinity b = .infinity (a != b) :=
          if_neg (beq_eq_false_iff_ne.mp hyne)
        exact hproduct ▸ .infinity (a != b)
      | finite hzfinite hzle =>
        cases z with
        | finite b n f hn =>
          refine atLeast_ofMagnitude (a != b) hleast hgreatest ?_
          rw [zpow_add₀ two_ne_zero]
          exact mul_le_mul hyle hzle (two_zpow_pos k).le ((two_zpow_pos j).le.trans hyle)
        | _ => cases hzfinite
    | _ => cases hyfinite

/-! ### The error of rounding -/

theorem abs_rounded_sub_le (h : 2 ^ (-1022 : Int) ≤ x) : |rounded x - x| ≤ x / 2 ^ 53 := by
  have hpos : 0 < x := (two_zpow_pos _).trans_le h
  have hunit : 2 ^ (52 : Int) * 2 ^ unitExponent x ≤ x := by
    by_cases hleast : unitExponent x = -1074
    · rw [hleast, ← zpow_add₀ two_ne_zero]
      exact h
    · exact (le_div_iff₀ (two_zpow_pos _)).mp (le_div_unit hpos hleast)
  have hstep : x / 2 ^ unitExponent x * 2 ^ unitExponent x = x :=
    div_mul_cancel₀ x (two_zpow_pos _).ne'
  have herror := abs_nearest_sub_le .toEven (div_nonneg hpos.le (two_zpow_pos (unitExponent x)).le)
  calc |rounded x - x|
      = |((nearest .toEven (x / 2 ^ unitExponent x) : Rat) - x / 2 ^ unitExponent x) *
          2 ^ unitExponent x| := by rw [sub_mul, hstep, rounded]
    _ = |(nearest .toEven (x / 2 ^ unitExponent x) : Rat) - x / 2 ^ unitExponent x| *
          2 ^ unitExponent x := by rw [abs_mul, abs_of_pos (two_zpow_pos (unitExponent x))]
    _ ≤ 1 / 2 * 2 ^ unitExponent x := mul_le_mul_of_nonneg_right herror (two_zpow_pos _).le
    _ ≤ x / 2 ^ 53 := by
        rw [le_div_iff₀ (by positivity)]
        refine le_trans (le_of_eq ?_) hunit
        norm_num
        ring

end Binary64

end ColumnFormula
