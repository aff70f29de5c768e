import ColumnFormula.Proofs.Number.Reading
import ColumnFormula.Proofs.Token.Spelling

/-!
# Numbers as texts

The text form of a finite number is a numeric text, and it denotes the number
(`numericText?_formatNumber`). Only the sign of a zero is lost, since both zeros are written `0`.
The places of a numeral are read with and without a minus in front (`readNumeral?_positional`), and
nothing of them is blank, so trimming does not touch them.
-/

set_option autoImplicit false
set_option relaxedAutoImplicit false

namespace ColumnFormula

/-! ### Places behind a sign -/

theorem readSign_of_isDigit {c : Char} (hc : c.isDigit = true) (rest : List Char) :
    readSign (c :: rest) = (false, c :: rest) := by
  have hminus : c ≠ '-' := by
    rintro rfl
    cases hc
  have hplus : c ≠ '+' := by
    rintro rfl
    cases hc
  simp [readSign, hminus, hplus]

namespace Numeral

theorem scale_zero (n : Numeral) : n.scale 0 = n := by
  rw [scale, Int.add_zero]

/-- The characters of a sign: a minus or nothing. -/
def minus (negative : Bool) : List Char := if negative then ['-'] else []

theorem written_cons (c : Char) (whole fraction : List Char) :
    written (c :: whole) fraction = c :: written whole fraction := by
  cases fraction <;> rfl

section Written

variable {whole fraction : List Char} (hwhole : ∀ c ∈ whole, c.isDigit = true)
  (hne : whole ≠ [] ∨ fraction ≠ [])

include hwhole hne

theorem readSign_written (negative : Bool) :
    readSign (minus negative ++ written whole fraction) = (negative, written whole fraction) := by
  cases negative with
  | true => rfl
  | false =>
    cases whole with
    | nil =>
      rw [written_of_ne_nil [] (hne.resolve_left fun h ↦ h rfl)]
      rfl
    | cons c whole =>
      rw [written_cons]
      exact readSign_of_isDigit (hwhole c List.mem_cons_self) _

/-- Digits before and behind a point, with a minus in front or without, are read as they stand. -/
theorem readNumeral?_written (hfraction : ∀ c ∈ fraction, c.isDigit = true) (negative : Bool) :
    readNumeral? (minus negative ++ written whole fraction) =
      some (negative, .ofDigits whole fraction) := by
  rw [readNumeral?, readSign_written hwhole hne]
  by_cases hnil : fraction = []
  · subst hnil
    have hwholeNe : whole ≠ [] := hne.resolve_right fun h ↦ h rfl
    simp [written, spanDigits_all hwhole, hwholeNe, readExponent?, scale_zero]
  · have hspan := spanDigits_of_digits hwhole ('.' :: fraction) (by simp)
    simp [written_of_ne_nil whole hnil, hspan, spanDigits_all hfraction, hnil, readExponent?,
      scale_zero]

end Written

/-- Written places read as a numeral of the same value, and a minus in front of them is kept. -/
theorem readNumeral?_positional (negative : Bool) (n : Numeral) :
    ∃ read, readNumeral? (minus negative ++ n.positional) = some (negative, read) ∧
      read.toRat = n.toRat := by
  obtain ⟨whole, fraction, hplaces, hne, hwhole, hfraction, hvalue⟩ :=
    n.exists_positional_eq_written
  exact ⟨_, hplaces ▸ readNumeral?_written hwhole (.inl hne) hfraction negative, hvalue⟩

end Numeral

/-! ### Numeric texts -/

theorem isBlank_of_isDigit {c : Char} (h : c.isDigit = true) : isBlank c = false :=
  isBlank_of_not_isReserved (isReserved_of_isLiteralChar (isLiteralChar_of_isDigit h))

theorem trim_eq_self {cs : List Char} (h : ∀ c ∈ cs, isBlank c = false) : trim cs = cs := by
  have hdrop : ∀ ds : List Char, (∀ c ∈ ds, isBlank c = false) → ds.dropWhile isBlank = ds := by
    intro ds hds
    cases ds with
    | nil => rfl
    | cons c rest => rw [List.dropWhile_cons_of_neg]; simp [hds c List.mem_cons_self]
  rw [trim, hdrop cs h, hdrop cs.reverse fun c hc ↦ h c (List.mem_reverse.mp hc),
    List.reverse_reverse]

theorem Numeral.isBlank_of_mem_positional {negative : Bool} {n : Numeral} {c : Char}
    (h : c ∈ minus negative ++ n.positional) : isBlank c = false := by
  obtain ⟨d, rest, hplaces, hd, hrest⟩ := n.exists_positional_eq_cons
  rw [hplaces, List.mem_append, List.mem_cons] at h
  rcases h with hsign | rfl | hmem
  · cases negative with
    | true => rw [List.mem_singleton.mp hsign]; decide
    | false => cases hsign
  · exact isBlank_of_isDigit hd
  · rcases hrest c hmem with hc | rfl
    · exact isBlank_of_isDigit hc
    · decide

/-- Places with a sign in front are a numeric text of their value. -/
theorem numericText?_positional (negative : Bool) (n : Numeral) :
    numericText? (String.ofList (Numeral.minus negative ++ n.positional)) =
      some (.ofMagnitude negative n.toRat) := by
  obtain ⟨read, hread, hvalue⟩ := n.readNumeral?_positional negative
  rw [numericText?, String.toList_ofList,
    trim_eq_self fun c hc ↦ Numeral.isBlank_of_mem_positional hc, hread, Option.map_some,
    ← hvalue, ← Numeral.toBinary64_eq_ofMagnitude]

/-! ### The text of a number -/

namespace Binary64

variable {m : Nat} {e : Int}

theorem ofMagnitude_shortest (negative : Bool) (tie : Tie) (h : StandardForm m e) :
    ofMagnitude negative (shortest tie m e h).toRat = .finite negative m e h := by
  have hpositive : ofMagnitude false (shortest tie m e h).toRat = .finite false m e h := by
    rw [← Numeral.toBinary64_eq_ofMagnitude, toBinary64_shortest]
  cases negative with
  | false => exact hpositive
  | true => rw [← Bool.not_false, ← neg_ofMagnitude, hpositive, neg]

theorem formatNumber_of_ne_zero (negative : Bool) (h : StandardForm m e) (hm : m ≠ 0) :
    formatNumber (.finite negative m e h) =
      String.ofList (Numeral.minus negative ++ (shortest .away m e h).positional) := by
  cases negative <;> simp [formatNumber, isZero, text, hm, Numeral.minus]

end Binary64

/-- The text of a finite number denotes the number. -/
theorem numericText?_formatNumber {x : Binary64} (h : x.isFinite = true) :
    numericText? (formatNumber x) = some x.withoutNegativeZero := by
  cases x with
  | finite negative m e hstandard =>
    by_cases hm : m = 0
    · subst hm
      obtain rfl := Binary64.exponent_of_standard_zero hstandard
      have hzero : numericText? "0" = some (.zero false) := by decide +kernel
      cases negative with
      | false => exact hzero
      | true => exact hzero
    · rw [Binary64.formatNumber_of_ne_zero negative hstandard hm, numericText?_positional,
        Binary64.ofMagnitude_shortest, Binary64.withoutNegativeZero_of_ne_zero _ _ hm]
  | _ => cases h

end ColumnFormula
