import ColumnFormula.Proofs.Value.Comparison
import ColumnFormula.Proofs.Value.NumericText

/-!
# Equality of values

Equality is decided sometimes by number and sometimes by text. Still it is equality of one key for
each value (`Value.equal_iff_key_eq`): nil, the number of a value that has one, or else its text.
What makes this so is that a finite number is never written like a text that is no number, so
values of the same text form either both have a number or both have none
(`Value.isSome_numericText?_render`). Hence equality is an equivalence relation on all values except
the numbers that are not finite (`Value.equal_equivalence`). Those are left out because not-a-number
does not equal itself, and because the words for the infinities are no numeric texts.
-/

set_option autoImplicit false
set_option relaxedAutoImplicit false

namespace ColumnFormula

/-! ### Numbers -/

namespace Binary64

theorem numEq_finite {x y : Binary64} (hx : x.isFinite = true) (hy : y.isFinite = true) :
    x.numEq y = true ↔ x.toRat = y.toRat := by
  cases x with
  | finite a m e h =>
    cases y with
    | finite b n f h' =>
      simp only [numEq, compare?, beq_iff_eq, Option.some.injEq]
      constructor
      · intro horder
        by_contra hne
        rw [if_neg hne] at horder
        split at horder <;> cases horder
      · intro heq
        rw [heq, if_neg (lt_irrefl _), if_pos rfl]
    | _ => cases hy
  | _ => cases hx

theorem isFinite_withoutNegativeZero (x : Binary64) :
    x.withoutNegativeZero.isFinite = x.isFinite := by
  unfold withoutNegativeZero
  split
  · rename_i hzero
    rw [hzero]
    rfl
  · rfl

theorem withoutNegativeZero_of_not_isFinite {x : Binary64} (h : x.isFinite = false) :
    x.withoutNegativeZero = x := by
  rw [withoutNegativeZero, if_neg]
  rintro rfl
  cases h

theorem numEq_of_not_isFinite {x y : Binary64} (hx : x ≠ .nan)
    (h : ¬ (x.isFinite = true ∧ y.isFinite = true)) : x.numEq y = true ↔ x = y := by
  cases x with
  | nan => exact absurd rfl hx
  | infinity a =>
    cases y with
    | infinity b => cases a <;> cases b <;> decide
    | _ => cases a <;> simp [numEq, compare?]
  | finite =>
    cases y with
    | nan => simp [numEq, compare?]
    | infinity b => cases b <;> simp [numEq, compare?]
    | finite => exact absurd ⟨rfl, rfl⟩ h

/-- Two numbers are equal exactly if they are the same up to the sign of a zero. -/
theorem numEq_iff {x y : Binary64} (hx : x ≠ .nan) :
    x.numEq y = true ↔ x.withoutNegativeZero = y.withoutNegativeZero := by
  by_cases hfinite : x.isFinite = true ∧ y.isFinite = true
  · rw [numEq_finite hfinite.1 hfinite.2]
    constructor
    · intro hvalue
      rw [← ofRat_toRat_of_isFinite hfinite.1, hvalue, ofRat_toRat_of_isFinite hfinite.2]
    · intro hsame
      rw [← toRat_withoutNegativeZero x, hsame, toRat_withoutNegativeZero]
  · rw [numEq_of_not_isFinite hx hfinite]
    constructor
    · exact fun heq ↦ congrArg withoutNegativeZero heq
    · intro hsame
      have hboth : x.isFinite = y.isFinite := by
        rw [← isFinite_withoutNegativeZero x, hsame, isFinite_withoutNegativeZero]
      have hright : y.isFinite = false := by
        rw [hboth, and_self] at hfinite
        exact Bool.not_eq_true _ ▸ hfinite
      rwa [withoutNegativeZero_of_not_isFinite (hboth.trans hright),
        withoutNegativeZero_of_not_isFinite hright] at hsame

end Binary64

theorem ne_nan_of_numericText? {s : String} {x : Binary64} (h : numericText? s = some x) :
    x ≠ .nan := by
  obtain ⟨⟨negative, numeral⟩, -, hnumber⟩ := Option.map_eq_some_iff.mp h
  rw [← hnumber]
  show numeral.toBinary64 negative ≠ .nan
  rw [Numeral.toBinary64_eq_ofMagnitude]
  exact Binary64.ofMagnitude_ne_nan negative numeral.toRat

/-! ### Ordinary values -/

namespace Value

/-- Every value but a number that is not finite. -/
def IsOrdinary : Value → Prop
  | .number x => x.isFinite = true
  | _ => True

/-- A value is written like a numeric text exactly if it has a number. -/
theorem isSome_numericText?_render {a : Value} (ha : a.IsOrdinary) :
    (numericText? a.render).isSome = a.asNumber?.isSome := by
  cases a with
  | nil => decide +kernel
  | boolean value => cases value <;> decide +kernel
  | number x => rw [render, numericText?_formatNumber ha]; rfl
  | text content => rfl

/-- What decides equality: nil, the number of a value that has one, or its text. -/
inductive Key where
  | nil
  | number (value : Binary64)
  | text (content : String)

def key : Value → Key
  | .nil => .nil
  | value =>
    match value.asNumber? with
    | some x => .number x.withoutNegativeZero
    | none => .text value.render

theorem ne_nan_of_asNumber? {a : Value} (ha : a.IsOrdinary) {x : Binary64}
    (h : a.asNumber? = some x) : x ≠ .nan := by
  cases a with
  | number y =>
    obtain rfl := Option.some.inj h
    rintro rfl
    cases ha
  | text content => exact ne_nan_of_numericText? h
  | _ => cases h

theorem key_of_ne_nil {a : Value} (h : a ≠ .nil) :
    a.key = match a.asNumber? with
      | some x => .number x.withoutNegativeZero
      | none => .text a.render := by
  cases a with
  | nil => exact absurd rfl h
  | _ => rfl

/-- The key shows whether a value has a number. -/
theorem isSome_asNumber?_eq (a : Value) :
    a.asNumber?.isSome = match a.key with
      | .number _ => true
      | _ => false := by
  by_cases hnil : a = .nil
  · rw [hnil]
    rfl
  · rw [key_of_ne_nil hnil]
    cases a.asNumber? <;> rfl

theorem key_eq_nil_iff {a : Value} : a.key = .nil ↔ a = .nil := by
  constructor
  · intro h
    by_contra hne
    rw [key_of_ne_nil hne] at h
    split at h <;> cases h
  · rintro rfl
    rfl

theorem nil_equal_iff {a : Value} : Value.nil.equal a = true ↔ a = .nil := by
  cases a <;> simp [equal]

/-- Ordinary values are equal exactly if they have the same key. -/
theorem equal_iff_key_eq {a b : Value} (ha : a.IsOrdinary) (hb : b.IsOrdinary) :
    a.equal b = true ↔ a.key = b.key := by
  by_cases hnil : a = .nil ∨ b = .nil
  · rcases hnil with rfl | rfl
    · rw [nil_equal_iff, ← key_eq_nil_iff, eq_comm]
      rfl
    · rw [equal_comm, nil_equal_iff, ← key_eq_nil_iff]
      rfl
  · obtain ⟨hleft, hright⟩ := not_or.mp hnil
    -- A value with a number and one without are different as texts, too.
    have hrender : a.render = b.render → a.asNumber?.isSome = b.asNumber?.isSome := by
      intro hsame
      rw [← isSome_numericText?_render ha, hsame, isSome_numericText?_render hb]
    rw [equal_of_ne_nil hleft hright, key_of_ne_nil hleft, key_of_ne_nil hright]
    cases hx : a.asNumber? with
    | none =>
      cases hy : b.asNumber? with
      | none => simp
      | some y =>
        rw [hx, hy] at hrender
        simpa using hrender
    | some x =>
      cases hy : b.asNumber? with
      | none =>
        rw [hx, hy] at hrender
        simpa using hrender
      | some y =>
        rw [Binary64.numEq_iff (ne_nan_of_asNumber? ha hx)]
        simp

/-- Equality is an equivalence relation on ordinary values. Of two values that are equal both have a
number or neither has one, so a finite number or a numeric text equals no other text and no truth
value; and nil equals nothing but nil. -/
theorem equal_equivalence :
    Equivalence (fun a b : {value : Value // value.IsOrdinary} ↦ a.val.equal b.val = true) ∧
      (∀ a b : {value : Value // value.IsOrdinary}, a.val.equal b.val = true →
        a.val.asNumber?.isSome = b.val.asNumber?.isSome) ∧
      ∀ a : Value, (Value.nil.equal a = true ↔ a = .nil) ∧ (a.equal .nil = true ↔ a = .nil) := by
  have hkey : ∀ a b : {value : Value // value.IsOrdinary},
      a.val.equal b.val = true ↔ a.val.key = b.val.key :=
    fun a b ↦ equal_iff_key_eq a.property b.property
  refine ⟨⟨fun a ↦ ?refl, fun hab ↦ ?symm, fun hab hbc ↦ ?trans⟩, fun a b hab ↦ ?number,
    fun a ↦ ⟨nil_equal_iff, ?nil⟩⟩
  case refl => exact (hkey a a).mpr rfl
  case symm => exact (hkey _ _).mpr ((hkey _ _).mp hab).symm
  case trans => exact (hkey _ _).mpr (((hkey _ _).mp hab).trans ((hkey _ _).mp hbc))
  case number => rw [isSome_asNumber?_eq, (hkey a b).mp hab, ← isSome_asNumber?_eq]
  case nil => rw [equal_comm, nil_equal_iff]

/-- Two spellings of ten are equal because both equal the number. -/
theorem equal_equivalence_spellings :
    (Value.text " 1e1 ").equal (.number (.ofNat 10)) = true ∧
      (Value.number (.ofNat 10)).equal (.text "+10.0") = true ∧
      (Value.text " 1e1 ").equal (.text "+10.0") = true := by
  have hleft : (Value.text " 1e1 ").equal (.number (.ofNat 10)) = true := by decide +kernel
  have hright : (Value.number (.ofNat 10)).equal (.text "+10.0") = true := by decide +kernel
  have hten : (Binary64.ofNat 10).isFinite = true := by decide +kernel
  have htrans := equal_equivalence.1.trans (x := ⟨.text " 1e1 ", trivial⟩)
    (y := ⟨.number (.ofNat 10), hten⟩) (z := ⟨.text "+10.0", trivial⟩)
  exact ⟨hleft, hright, htrans hleft hright⟩

end Value

end ColumnFormula
