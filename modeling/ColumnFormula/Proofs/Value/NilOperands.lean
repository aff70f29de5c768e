import ColumnFormula.Proofs.Number.RoundTo
import ColumnFormula.Proofs.Value.Equality
import ColumnFormula.Value.Arithmetic

/-!
# Nil as an operand

Nil counts as zero, and adding or subtracting it changes no finite number
(`Value.add_nil_numEq`). Two results compete for this. The binary one is the exact sum rounded once,
and a sum that is a number already stays as it is (`Binary64.numEq_add`). The decimal one only comes
about for an operand that its decimal gives back, and a decimal with a zero added or taken away is
the same decimal, except that a zero may turn into the other zero (`Decimal.exists_add?_zero`,
`Decimal.exists_sub?_zero`). So it makes no difference which of them is taken
(`Arithmetic.numEq_compute`), and neither the tolerance nor the number of digits is looked at.
-/

set_option autoImplicit false
set_option relaxedAutoImplicit false

namespace ColumnFormula

/-! ### Binary sums -/

namespace Binary64

variable {x y z : Binary64}

theorem toRat_of_isZero (h : x.isZero = true) : x.isFinite = true ∧ x.toRat = 0 := by
  cases x with
  | finite negative m e hstandard =>
    obtain rfl : m = 0 := by simpa [isZero] using h
    cases negative <;> simp [isFinite, toRat, isNegative, magnitude]
  | _ => cases h

/-- Both zeros are equal to the same numbers. -/
theorem numEq_of_isZero (hx : x.isZero = true) (hy : y.isZero = true) (hz : z.isFinite = true)
    (h : y.numEq z = true) : x.numEq z = true := by
  obtain ⟨hfinite, hvalue⟩ := toRat_of_isZero hx
  obtain ⟨hfinite', hvalue'⟩ := toRat_of_isZero hy
  rw [numEq_finite hfinite' hz, hvalue'] at h
  rwa [numEq_finite hfinite hz, hvalue]

/-- A sum that is a number already is not rounded. -/
theorem numEq_add (hx : x.isFinite = true) (hy : y.isFinite = true) (hz : z.isFinite = true)
    (h : x.toRat + y.toRat = z.toRat) : (x + y).numEq z = true := by
  cases x with
  | finite a m e hm =>
    cases y with
    | finite b n f hn =>
      show (if toRat (.finite a m e hm) + toRat (.finite b n f hn) = 0 then zero (a && b)
        else ofRat (toRat (.finite a m e hm) + toRat (.finite b n f hn))).numEq z = true
      rw [h]
      split
      · rename_i hzero
        obtain ⟨hfinite, hvalue⟩ := toRat_of_isZero (x := zero (a && b)) rfl
        rw [numEq_finite hfinite hz, hvalue, hzero]
      · have hfinite := (isFinite_withoutNegativeZero z).trans hz
        rw [ofRat_toRat_of_isFinite hz, numEq_finite hfinite hz, toRat_withoutNegativeZero]
    | _ => cases hy
  | _ => cases hx

end Binary64

/-! ### Decimal sums -/

namespace Decimal

variable {a : Decimal} {x : Binary64}

theorem coefficient_zero (negative : Bool) : (zero negative).coefficient = 0 := rfl

theorem zero_add? (b : Decimal) : (zero false).add? b = some b := if_pos rfl

theorem exists_add?_zero (hx : x.isFinite = true) (ha : a.toBinary64.numEq x = true) :
    ∃ sum, a.add? (zero false) = some sum ∧ sum.toBinary64.numEq x = true := by
  by_cases hzero : a.coefficient = 0
  · exact ⟨zero false, if_pos hzero,
      Binary64.numEq_of_isZero (isZero_toBinary64 rfl) (isZero_toBinary64 hzero) hx ha⟩
  · exact ⟨a, by rw [add?, if_neg hzero, if_pos (coefficient_zero false)], ha⟩

theorem exists_sub?_zero (hx : x.isFinite = true) (ha : a.toBinary64.numEq x = true) :
    ∃ difference, a.sub? (zero false) = some difference ∧
      difference.toBinary64.numEq x = true := by
  by_cases hzero : a.coefficient = 0
  · exact ⟨(zero false).neg, if_pos hzero,
      Binary64.numEq_of_isZero (isZero_toBinary64 rfl) (isZero_toBinary64 hzero) hx ha⟩
  · exact ⟨a, by rw [sub?, if_neg hzero, if_pos (coefficient_zero false)], ha⟩

end Decimal

/-- The decimal of a number, where it has one that is exact enough, turns back into it. -/
theorem numEq_of_exactDecimal? {x : Binary64} {d : Decimal} (h : exactDecimal? x = some d) :
    d.toBinary64.numEq x = true := by
  obtain ⟨c, -, hback⟩ := Option.bind_eq_some_iff.mp h
  split at hback
  · rename_i hequal
    exact Option.some.inj hback ▸ hequal
  · cases hback

theorem exactDecimal?_zero : exactDecimal? (.zero false) = some (.zero false) := by
  decide +kernel

/-! ### The result of an operator -/

/-- If both results are equal to a number, so is the one that is taken. -/
theorem Arithmetic.numEq_compute {op : Arithmetic} {a b x : Binary64}
    (hbinary : (op.binary a b).numEq x = true)
    (hdecimal : ∀ c d, exactDecimal? a = some c → exactDecimal? b = some d →
      ∃ result, op.decimal? c d = some result ∧ result.toBinary64.numEq x = true) :
    (op.compute a b).numEq x = true := by
  unfold compute
  cases hresult : op.inDecimal? a b with
  | none => exact hbinary
  | some value =>
    dsimp only
    split
    · obtain ⟨c, hc, hbehind⟩ := Option.bind_eq_some_iff.mp hresult
      obtain ⟨d, hd, hbehind⟩ := Option.bind_eq_some_iff.mp hbehind
      obtain ⟨result, hdecimalResult, hvalue⟩ := Option.bind_eq_some_iff.mp hbehind
      obtain ⟨expected, hexpected, hequal⟩ := hdecimal c d hc hd
      obtain rfl := Option.some.inj (hdecimalResult.symm.trans hexpected)
      exact Option.some.inj hvalue ▸ hequal
    · exact hbinary

namespace Value

/-- Adding nil to a finite number on either side, and subtracting nil from it, gives a number that
is equal to it. -/
theorem add_nil_numEq {x : Binary64} (h : x.isFinite = true) :
    (∃ y, (BinaryOp.arithmetic .add).apply .nil (.number x) = .ok (.number y) ∧
      y.numEq x = true) ∧
    (∃ y, (BinaryOp.arithmetic .add).apply (.number x) .nil = .ok (.number y) ∧
      y.numEq x = true) ∧
    ∃ y, (BinaryOp.arithmetic .subtract).apply (.number x) .nil = .ok (.number y) ∧
      y.numEq x = true := by
  have hzero : ∀ negative, (Binary64.zero negative).isFinite = true ∧
      (Binary64.zero negative).toRat = 0 := fun negative ↦ Binary64.toRat_of_isZero rfl
  have hnil : ∀ d, exactDecimal? (.zero false) = some d → d = .zero false := by
    intro d hd
    rw [exactDecimal?_zero] at hd
    exact (Option.some.inj hd).symm
  refine ⟨⟨_, rfl, Arithmetic.numEq_compute ?_ fun c d hc hd ↦ ?_⟩,
    ⟨_, rfl, Arithmetic.numEq_compute ?_ fun c d hc hd ↦ ?_⟩,
    ⟨_, rfl, Arithmetic.numEq_compute ?_ fun c d hc hd ↦ ?_⟩⟩
  · exact Binary64.numEq_add (hzero false).1 h h (by rw [(hzero false).2, zero_add])
  · rw [hnil c hc]
    exact ⟨d, d.zero_add?, numEq_of_exactDecimal? hd⟩
  · exact Binary64.numEq_add h (hzero false).1 h (by rw [(hzero false).2, add_zero])
  · rw [hnil d hd]
    exact Decimal.exists_add?_zero h (numEq_of_exactDecimal? hc)
  · -- Subtracting zero is adding the negative zero.
    have hsum : x.toRat + (Binary64.zero true).toRat = x.toRat := by rw [(hzero true).2, add_zero]
    exact Binary64.numEq_add h (hzero true).1 h hsum
  · rw [hnil d hd]
    exact Decimal.exists_sub?_zero h (numEq_of_exactDecimal? hc)

/-- The least positive number, which has no decimal of its own. -/
theorem add_nil_numEq_least :
    let least := Binary64.finite false 1 (-1074) (by decide)
    least.isFinite = true ∧ exactDecimal? least = none ∧
    (∃ y, (BinaryOp.arithmetic .add).apply .nil (.number least) = .ok (.number y) ∧
      y.numEq least = true) ∧
    (∃ y, (BinaryOp.arithmetic .add).apply (.number least) .nil = .ok (.number y) ∧
      y.numEq least = true) ∧
    ∃ y, (BinaryOp.arithmetic .subtract).apply (.number least) .nil = .ok (.number y) ∧
      y.numEq least = true :=
  ⟨rfl, by decide +kernel, add_nil_numEq rfl⟩

end Value

end ColumnFormula
