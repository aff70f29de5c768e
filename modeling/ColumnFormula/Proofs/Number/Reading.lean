import ColumnFormula.Value
import ColumnFormula.Proofs.Number.Magnitude
import Mathlib.Data.List.TakeWhile

/-!
# Reading a written number

A number is written by its shortest numeral with all places out, and the numeral reads back as the
number: whatever the digit search finds reads back by construction, the exact expansion has the
value of the number, and neither moving trailing zeros nor writing the places out changes a value
(`toRat_strip`, `readPlainNumeral?_positional`). Since rounding depends on the value alone
(`toBinary64_eq_of_toRat_eq`), reading undoes `formatNumber` (`readPlainNumeral?_formatNumber`).
-/

set_option autoImplicit false
set_option relaxedAutoImplicit false

namespace ColumnFormula

/-! ### The value of a numeral decides the number -/

namespace Numeral

theorem toBinary64_eq_ofMagnitude (negative : Bool) (n : Numeral) :
    n.toBinary64 negative = .ofMagnitude negative n.toRat :=
  Binary64.ofDecimal_eq_ofMagnitude negative n.coefficient n.exponent

/-- Numerals of one value denote one number. -/
theorem toBinary64_eq_of_toRat_eq {m n : Numeral} (h : m.toRat = n.toRat) (negative : Bool) :
    m.toBinary64 negative = n.toBinary64 negative := by
  rw [toBinary64_eq_ofMagnitude, toBinary64_eq_ofMagnitude, h]

theorem toRat_strip (n : Numeral) : n.strip.toRat = n.toRat := by
  fun_induction strip n with
  | case1 n hzero => rfl
  | case2 n hzero htrailing ih =>
    rw [ih]
    have hcoefficient : n.coefficient = n.coefficient / 10 * 10 := by omega
    calc ((n.coefficient / 10 : Nat) : Rat) * 10 ^ (n.exponent + 1)
        = ((n.coefficient / 10 * 10 : Nat) : Rat) * 10 ^ n.exponent := by
          rw [zpow_add_one₀ (by norm_num)]
          push_cast
          ring
      _ = n.toRat := by rw [← hcoefficient, toRat]
  | case3 n hzero htrailing => rfl

end Numeral

/-! ### The shortest numeral -/

namespace Binary64

theorem toBinary64_of_gridNumeral? {tie : Tie} {target : Binary64} {x : Rat} {k : Int}
    {n : Numeral} (h : gridNumeral? tie target x k = some n) : n.toBinary64 false = target := by
  unfold gridNumeral? at h
  dsimp only at h
  split at h
  · rename_i hread
    exact Option.some.inj h ▸ hread
  · split at h
    · rename_i hread
      exact Option.some.inj h ▸ hread
    · split at h
      · rename_i hread
        exact Option.some.inj h ▸ hread
      · cases h

theorem toBinary64_of_searchGrids {tie : Tie} {target : Binary64} {x : Rat} {n : Numeral}
    {count : Nat} {k : Int} (h : searchGrids tie target x count k = some n) :
    n.toBinary64 false = target := by
  induction count generalizing k with
  | zero => cases h
  | succ count ih =>
    rw [searchGrids] at h
    split at h
    · rename_i hgrid
      obtain rfl := Option.some.inj h
      exact toBinary64_of_gridNumeral? hgrid
    · exact ih h

/-- The exact expansion has the value of the number. -/
theorem toRat_exactNumeral (m : Nat) (e : Int) : (exactNumeral m e).toRat = (m : Rat) * 2 ^ e := by
  unfold exactNumeral
  split
  · rename_i hnonneg
    obtain ⟨k, rfl⟩ := Int.eq_ofNat_of_zero_le hnonneg
    simp [Numeral.toRat]
  · rename_i hneg
    obtain ⟨k, rfl⟩ : ∃ k : Nat, e = -(k : Int) := ⟨(-e).toNat, by omega⟩
    have hten : (10 : Rat) ^ k = 5 ^ k * 2 ^ k := by
      rw [← mul_pow]
      norm_num
    have hfive : (5 : Rat) ^ k ≠ 0 := by positivity
    simp only [Numeral.toRat, neg_neg, Int.toNat_natCast, zpow_neg, zpow_natCast, hten, mul_inv,
      Nat.pow_eq]
    push_cast
    rw [mul_assoc, mul_inv_cancel_left₀ hfive]

/-- Reading the shortest numeral gives the number back. -/
theorem toBinary64_shortest (tie : Tie) {m : Nat} {e : Int} (h : StandardForm m e) :
    (shortest tie m e h).toBinary64 false = .finite false m e h := by
  unfold shortest
  split
  · rename_i hzero
    rw [Numeral.toBinary64_eq_ofMagnitude, ← ofMagnitude_standard false h, hzero]
    simp [Numeral.toRat]
  · dsimp only
    split
    · rename_i n hsearch
      rw [Numeral.toBinary64_eq_of_toRat_eq (Numeral.toRat_strip n)]
      exact toBinary64_of_searchGrids hsearch
    · rw [Numeral.toBinary64_eq_ofMagnitude, toRat_exactNumeral, ofMagnitude_standard false h]

end Binary64

/-! ### Writing the places out -/

theorem spanDigits_of_digits {digits : List Char} (hdigits : ∀ c ∈ digits, c.isDigit = true)
    (rest : List Char) (hrest : ∀ c ∈ rest.head?, c.isDigit = false) :
    spanDigits (digits ++ rest) = (digits, rest) := by
  have htake : rest.takeWhile Char.isDigit = [] := by
    cases rest with
    | nil => rfl
    | cons c rest => simp [hrest c rfl]
  have hdrop : rest.dropWhile Char.isDigit = rest := by
    cases rest with
    | nil => rfl
    | cons c rest => simp [hrest c rfl]
  rw [spanDigits, List.span_eq_takeWhile_dropWhile, List.takeWhile_append_of_pos hdigits,
    List.dropWhile_append_of_pos hdigits, htake, hdrop, List.append_nil]

theorem spanDigits_eq {cs digits rest : List Char} (h : spanDigits cs = (digits, rest)) :
    cs = digits ++ rest ∧ ∀ c ∈ digits, c.isDigit = true := by
  rw [spanDigits, List.span_eq_takeWhile_dropWhile] at h
  obtain ⟨rfl, rfl⟩ := Prod.mk.inj h
  exact ⟨List.takeWhile_append_dropWhile.symm, fun c hc ↦ List.mem_takeWhile_imp hc⟩

theorem spanDigits_all {digits : List Char} (hdigits : ∀ c ∈ digits, c.isDigit = true) :
    spanDigits digits = (digits, []) := by
  have hspan := spanDigits_of_digits hdigits [] (by simp)
  rwa [List.append_nil] at hspan

namespace Numeral

/-- Digits before and behind the point; the point is left out when nothing is behind it. -/
def written (whole : List Char) : List Char → List Char
  | [] => whole
  | fraction => whole ++ '.' :: fraction

theorem written_of_ne_nil (whole : List Char) {fraction : List Char} (h : fraction ≠ []) :
    written whole fraction = whole ++ '.' :: fraction :=
  written.eq_2 whole fraction h

theorem readPlainNumeral?_written {whole fraction : List Char}
    (hwhole : ∀ c ∈ whole, c.isDigit = true) (hfraction : ∀ c ∈ fraction, c.isDigit = true)
    (hne : whole ≠ [] ∨ fraction ≠ []) :
    readPlainNumeral? (written whole fraction) = some (.ofDigits whole fraction) := by
  by_cases hnil : fraction = []
  · subst hnil
    have hwholeNe : whole ≠ [] := hne.resolve_right fun h ↦ h rfl
    simp [written, readPlainNumeral?, spanDigits_all hwhole, hwholeNe]
  · have hspan := spanDigits_of_digits hwhole ('.' :: fraction) (by simp)
    simp [written_of_ne_nil whole hnil, readPlainNumeral?, hspan, spanDigits_all hfraction, hnil]

/-- A plain numeral is digits before and behind the point, not both of them missing. -/
theorem exists_written_of_readPlainNumeral? {cs : List Char} {n : Numeral}
    (h : readPlainNumeral? cs = some n) :
    ∃ whole fraction, cs = written whole fraction ∧ n = .ofDigits whole fraction ∧
      (∀ c ∈ whole, c.isDigit = true) ∧ (∀ c ∈ fraction, c.isDigit = true) ∧
      (whole ≠ [] ∨ fraction ≠ []) := by
  rw [readPlainNumeral?] at h
  cases hspan : spanDigits cs with
  | mk whole rest =>
    obtain ⟨rfl, hwhole⟩ := spanDigits_eq hspan
    rw [hspan] at h
    dsimp only at h
    split at h
    · split at h
      · cases h
      · rename_i hne
        refine ⟨whole, [], List.append_nil _, (Option.some.inj h).symm, hwhole, nofun, .inl ?_⟩
        simpa using hne
    · rename_i behind
      cases hspanBehind : spanDigits behind with
      | mk fraction after =>
        obtain ⟨rfl, hfraction⟩ := spanDigits_eq hspanBehind
        rw [hspanBehind] at h
        dsimp only at h
        split at h
        · cases h
        · rename_i hcomplete
          simp only [Bool.or_eq_true, Bool.not_eq_true', not_or, Bool.not_eq_false,
            List.isEmpty_iff] at hcomplete
          obtain ⟨hne, rfl⟩ := hcomplete
          rw [List.append_nil, ← written_of_ne_nil whole hne]
          exact ⟨whole, fraction, rfl, (Option.some.inj h).symm, hwhole, hfraction, .inr hne⟩
    · cases h

theorem isDigit_of_mem_replicate {count : Nat} {c : Char} (h : c ∈ List.replicate count '0') :
    c.isDigit = true := by
  obtain rfl := List.eq_of_mem_replicate h
  rfl

/-- The places of a numeral: digits before and behind the point that make up the same value. -/
theorem exists_positional_eq_written (n : Numeral) :
    ∃ whole fraction, n.positional = written whole fraction ∧ whole ≠ [] ∧
      (∀ c ∈ whole, c.isDigit = true) ∧ (∀ c ∈ fraction, c.isDigit = true) ∧
      (ofDigits whole fraction).toRat = n.toRat := by
  have hdigits : ∀ c ∈ decimalDigits n.coefficient, c.isDigit = true :=
    fun c hc ↦ isDigit_of_mem_decimalDigits hc
  have hne : decimalDigits n.coefficient ≠ [] := Nat.toDigits_ne_nil
  have hvalue : ofDecimalDigits (decimalDigits n.coefficient) = n.coefficient :=
    ofDecimalDigits_decimalDigits n.coefficient
  unfold positional
  dsimp only
  split
  · rename_i hnonneg
    obtain ⟨k, hexponent⟩ := Int.eq_ofNat_of_zero_le hnonneg
    refine ⟨_, [], rfl, by simp [hne], fun c hc ↦ ?_, by simp, ?_⟩
    · exact (List.mem_append.mp hc).elim (hdigits c) isDigit_of_mem_replicate
    · unfold ofDecimalDigits at hvalue
      simp [toRat, ofDigits, ofDecimalDigits, Nat.ofDigitChars_append,
        Nat.ofDigitChars_replicate_zero, hvalue, hexponent]
      ring
  · rename_i hneg
    obtain ⟨k, hexponent⟩ : ∃ k : Nat, n.exponent = -(k : Int) := ⟨(-n.exponent).toNat, by omega⟩
    simp only [hexponent, neg_neg, Int.toNat_natCast]
    split
    · rename_i hplaces
      have hfraction : (decimalDigits n.coefficient).drop
          ((decimalDigits n.coefficient).length - k) ≠ [] := by
        rw [Ne, List.drop_eq_nil_iff]
        omega
      refine ⟨_, _, (written_of_ne_nil _ hfraction).symm, ?_, fun c hc ↦ hdigits c ?_,
        fun c hc ↦ hdigits c ?_, ?_⟩
      · rw [Ne, List.take_eq_nil_iff, not_or]
        exact ⟨by omega, hne⟩
      · exact List.mem_of_mem_take hc
      · exact List.mem_of_mem_drop hc
      · have hlength : (decimalDigits n.coefficient).length -
            ((decimalDigits n.coefficient).length - k) = k := by omega
        simp only [toRat, ofDigits, List.take_append_drop, hvalue, List.length_drop, hlength,
          hexponent]
    · rename_i hplaces
      have hfraction : List.replicate (k - (decimalDigits n.coefficient).length) '0' ++
          decimalDigits n.coefficient ≠ [] := by simp [hne]
      refine ⟨['0'], _, (written_of_ne_nil ['0'] hfraction).symm, by simp, by simp,
        fun c hc ↦ ?_, ?_⟩
      · exact (List.mem_append.mp hc).elim isDigit_of_mem_replicate (hdigits c)
      · have hlength : k - (decimalDigits n.coefficient).length +
            (decimalDigits n.coefficient).length = k := by omega
        unfold ofDecimalDigits at hvalue
        simp [toRat, ofDigits, ofDecimalDigits, Nat.ofDigitChars_append, Nat.ofDigitChars_cons,
          Nat.ofDigitChars_replicate_zero, hvalue, hexponent, hlength]

/-- The written places read as a numeral of the same value. -/
theorem readPlainNumeral?_positional (n : Numeral) :
    ∃ read, readPlainNumeral? n.positional = some read ∧ read.toRat = n.toRat := by
  obtain ⟨whole, fraction, hplaces, hne, hwhole, hfraction, hvalue⟩ :=
    exists_positional_eq_written n
  exact ⟨_, hplaces ▸ readPlainNumeral?_written hwhole hfraction (.inl hne), hvalue⟩

/-- Written places are digits and points, and start with a digit. -/
theorem exists_positional_eq_cons (n : Numeral) :
    ∃ c rest, n.positional = c :: rest ∧ c.isDigit = true ∧
      ∀ d ∈ rest, d.isDigit = true ∨ d = '.' := by
  obtain ⟨whole, fraction, hplaces, hne, hwhole, hfraction, -⟩ := exists_positional_eq_written n
  obtain ⟨c, rest, rfl⟩ := List.exists_cons_of_ne_nil hne
  have hrest : ∀ d ∈ rest, d.isDigit = true := fun d hd ↦ hwhole d (List.mem_cons_of_mem c hd)
  unfold written at hplaces
  split at hplaces
  · exact ⟨c, rest, hplaces, hwhole c List.mem_cons_self, fun d hd ↦ .inl (hrest d hd)⟩
  · refine ⟨c, rest ++ '.' :: fraction, hplaces, hwhole c List.mem_cons_self, fun d hd ↦ ?_⟩
    rcases List.mem_append.mp hd with hd | hd
    · exact .inl (hrest d hd)
    · rcases List.mem_cons.mp hd with rfl | hd
      · exact .inr rfl
      · exact .inl (hfraction d hd)

end Numeral

/-! ### Written numbers -/

/-- A finite number without a minus is written as places of a numeral that denotes it; zero is
written with the one place of its numeral. -/
theorem exists_formatNumber_eq {m : Nat} {e : Int} (h : StandardForm m e) :
    ∃ n : Numeral, formatNumber (.finite false m e h) = String.ofList n.positional ∧
      n.toBinary64 false = .finite false m e h := by
  refine ⟨Binary64.shortest .away m e h, ?_, Binary64.toBinary64_shortest .away h⟩
  by_cases hzero : m = 0
  · subst hzero
    simp [formatNumber, Binary64.isZero, Binary64.shortest, Numeral.positional, decimalDigits]
  · simp [formatNumber, Binary64.isZero, Binary64.text, hzero]

/-- Reading a written number gives the number back. -/
theorem readPlainNumeral?_formatNumber {m : Nat} {e : Int} (h : StandardForm m e) :
    ∃ read, readPlainNumeral? (formatNumber (.finite false m e h)).toList = some read ∧
      read.toBinary64 false = .finite false m e h := by
  obtain ⟨n, htext, hnumber⟩ := exists_formatNumber_eq h
  obtain ⟨read, hread, hvalue⟩ := n.readPlainNumeral?_positional
  refine ⟨read, ?_, ?_⟩
  · rw [htext, String.toList_ofList, hread]
  · rw [Numeral.toBinary64_eq_of_toRat_eq hvalue, hnumber]

end ColumnFormula
