import ColumnFormula.Value.Comparison
import Mathlib.Data.Rat.Defs
import Mathlib.Algebra.Order.Ring.Rat

/-!
# The six comparison operators agree

Equality and order are decided apart from each other, and each chooses for itself whether two values
compare as numbers or as texts. They choose alike: values other than nil are equal exactly if their
order is "equal" (`Value.equal_eq_compare?`). The order of the swapped operands is the swapped order
(`Value.compare?_swap`), and there is one unless an operand is nil or not a number
(`Value.exists_compare?_iff`). From these three facts follow all laws between the operators
(`Comparison.lawsHold`).
-/

set_option autoImplicit false
set_option relaxedAutoImplicit false

namespace ColumnFormula

/-! ### Texts -/

theorem compareTexts_eq_eq_iff {a b : String} : compareTexts a b = .eq ↔ a = b := by
  unfold compareTexts
  split
  · rename_i hlt
    constructor
    · nofun
    · rintro rfl
      exact absurd hlt (String.lt_irrefl a)
  · split <;> simp_all

theorem compareTexts_swap (a b : String) : (compareTexts a b).swap = compareTexts b a := by
  unfold compareTexts
  by_cases hlt : a < b
  · have hne : b ≠ a := fun heq ↦ String.lt_irrefl a (heq ▸ hlt)
    rw [if_pos hlt, if_neg (String.lt_asymm hlt), if_neg hne]
    rfl
  · by_cases heq : a = b
    · rw [if_neg hlt, if_pos heq, if_neg (heq ▸ hlt), if_pos heq.symm]
      rfl
    · have hgt : b < a := by
        by_contra hge
        exact heq (String.le_antisymm (String.not_lt.mp hge) (String.not_lt.mp hlt))
      rw [if_neg hlt, if_neg heq, if_pos hgt]
      rfl

/-! ### Numbers -/

namespace Binary64

theorem compare?_swap (x y : Binary64) : (x.compare? y).map Ordering.swap = y.compare? x := by
  cases x with
  | nan => cases y <;> rfl
  | infinity a =>
    cases y with
    | nan => rfl
    | infinity b => cases a <;> cases b <;> rfl
    | finite => cases a <;> rfl
  | finite a m e h =>
    cases y with
    | nan => rfl
    | infinity b => cases b <;> rfl
    | finite b n f h' =>
      simp only [compare?, Option.map_some]
      rcases lt_trichotomy (toRat (.finite a m e h)) (toRat (.finite b n f h')) with
        hlt | heq | hgt
      · rw [if_pos hlt, if_neg hlt.not_gt, if_neg hlt.ne']
        rfl
      · rw [heq, if_neg (lt_irrefl _), if_pos rfl]
        rfl
      · rw [if_neg hgt.not_gt, if_neg hgt.ne', if_pos hgt]
        rfl

theorem exists_compare?_iff {x y : Binary64} :
    (∃ order, x.compare? y = some order) ↔ x ≠ .nan ∧ y ≠ .nan := by
  cases x <;> cases y <;> simp [compare?]

end Binary64

/-! ### Values -/

namespace Value

variable {a b : Value}

/-- Neither value is nil, and not both of them are numbers of which one is not a number. -/
def Comparable (a b : Value) : Prop :=
  a ≠ .nil ∧ b ≠ .nil ∧
    ¬ ∃ x y, a.asNumber? = some x ∧ b.asNumber? = some y ∧ (x = .nan ∨ y = .nan)

/-- Values other than nil are equal as numbers if both are, and as texts otherwise. -/
theorem equal_of_ne_nil (ha : a ≠ .nil) (hb : b ≠ .nil) :
    a.equal b = match a.asNumber?, b.asNumber? with
      | some x, some y => x.numEq y
      | _, _ => a.render == b.render := by
  cases a with
  | nil => exact absurd rfl ha
  | _ =>
    cases b with
    | nil => exact absurd rfl hb
    | _ => rfl

/-- Values other than nil are ordered as numbers if both are, and as texts otherwise. -/
theorem compare?_of_ne_nil (ha : a ≠ .nil) (hb : b ≠ .nil) :
    a.compare? b = match a.asNumber?, b.asNumber? with
      | some x, some y => x.compare? y
      | _, _ => some (compareTexts a.render b.render) := by
  cases a with
  | nil => exact absurd rfl ha
  | _ =>
    cases b with
    | nil => exact absurd rfl hb
    | _ => rfl

theorem compare?_of_nil (h : a = .nil ∨ b = .nil) : a.compare? b = none := by
  rcases h with rfl | rfl
  · rfl
  · cases a <;> rfl

/-- Values other than nil are equal exactly if their order is "equal". -/
theorem equal_eq_compare? (ha : a ≠ .nil) (hb : b ≠ .nil) :
    a.equal b = (a.compare? b == some .eq) := by
  have htexts : (a.render == b.render) = (some (compareTexts a.render b.render) == some .eq) := by
    rw [Bool.eq_iff_iff, beq_iff_eq, beq_iff_eq, Option.some.injEq, compareTexts_eq_eq_iff]
  rw [equal_of_ne_nil ha hb, compare?_of_ne_nil ha hb]
  cases a.asNumber? with
  | none => exact htexts
  | some x =>
    cases b.asNumber? with
    | none => exact htexts
    | some y => rfl

theorem compare?_swap (a b : Value) : (a.compare? b).map Ordering.swap = b.compare? a := by
  by_cases hnil : a = .nil ∨ b = .nil
  · rw [compare?_of_nil hnil, compare?_of_nil hnil.symm]
    rfl
  · obtain ⟨ha, hb⟩ := not_or.mp hnil
    have htexts : (some (compareTexts a.render b.render)).map Ordering.swap =
        some (compareTexts b.render a.render) := congrArg some (compareTexts_swap _ _)
    rw [compare?_of_ne_nil ha hb, compare?_of_ne_nil hb ha]
    cases a.asNumber? with
    | none =>
      cases b.asNumber? with
      | none => exact htexts
      | some y => exact htexts
    | some x =>
      cases b.asNumber? with
      | none => exact htexts
      | some y => exact x.compare?_swap y

theorem equal_comm (a b : Value) : a.equal b = b.equal a := by
  by_cases hnil : a = .nil ∨ b = .nil
  · rcases hnil with rfl | rfl
    · cases b <;> rfl
    · cases a <;> rfl
  · obtain ⟨ha, hb⟩ := not_or.mp hnil
    rw [equal_eq_compare? ha hb, equal_eq_compare? hb ha, ← compare?_swap a b]
    cases a.compare? b with
    | none => rfl
    | some order => cases order <;> rfl

/-- Two values have an order unless one of them is nil or not a number. -/
theorem exists_compare?_iff : (∃ order, a.compare? b = some order) ↔ Comparable a b := by
  by_cases hnil : a = .nil ∨ b = .nil
  · rw [compare?_of_nil hnil]
    constructor
    · rintro ⟨_, ⟨⟩⟩
    · intro hcomparable
      exact (hnil.elim hcomparable.1 hcomparable.2.1).elim
  · obtain ⟨ha, hb⟩ := not_or.mp hnil
    rw [compare?_of_ne_nil ha hb, Comparable]
    cases a.asNumber? with
    | none => simp [ha, hb]
    | some x =>
      cases b.asNumber? with
      | none => simp [ha, hb]
      | some y => simp [ha, hb, Binary64.exists_compare?_iff]

end Value

/-! ### Operators -/

namespace Comparison

/-- Whether an operator accepts the order of its operands. -/
def accepts : Comparison → Ordering → Bool
  | .equal, order => order == .eq
  | .notEqual, order => order != .eq
  | .less, order => order == .lt
  | .greater, order => order == .gt
  | .lessEqual, order => order != .gt
  | .greaterEqual, order => order != .lt

theorem existsUnique_accepts (order : Ordering) :
    ∃! op, op ∈ [less, equal, greater] ∧ op.accepts order = true := by
  cases order with
  | lt => exact ⟨less, by decide, fun op hop ↦ by cases op <;> simp_all [accepts]⟩
  | eq => exact ⟨equal, by decide, fun op hop ↦ by cases op <;> simp_all [accepts]⟩
  | gt => exact ⟨greater, by decide, fun op hop ↦ by cases op <;> simp_all [accepts]⟩

/-- On operands that have an order, the order decides all operators. -/
theorem holds_of_compare? {a b : Value} {order : Ordering} (h : a.compare? b = some order)
    (op : Comparison) : op.holds a b = op.accepts order := by
  have hne : a ≠ .nil ∧ b ≠ .nil := by
    rw [← not_or]
    intro hnil
    rw [Value.compare?_of_nil hnil] at h
    cases h
  have hequal : a.equal b = (order == .eq) := by
    rw [Value.equal_eq_compare? hne.1 hne.2, h]
    cases order <;> rfl
  cases op with
  | equal => exact hequal
  | notEqual => exact congrArg not hequal
  | _ =>
    rw [holds, h]
    cases order <;> rfl

/-- On operands without an order no ordering holds. -/
theorem holds_of_compare?_eq_none {a b : Value} (h : a.compare? b = none) :
    ∀ op ∈ [less, greater, lessEqual, greaterEqual], op.holds a b = false := by
  simp [holds, h]

/-- The laws between the six operators on two values. -/
structure LawsHold (a b : Value) : Prop where
  equal_swap : equal.holds a b = equal.holds b a
  notEqual_eq : notEqual.holds a b = !equal.holds a b
  less_swap : less.holds a b = greater.holds b a
  lessEqual_swap : lessEqual.holds a b = greaterEqual.holds b a
  /-- Nil is neither less nor greater than anything. -/
  of_nil : a = .nil ∨ b = .nil →
    ∀ op ∈ [less, greater, lessEqual, greaterEqual], op.holds a b = false
  /-- Comparable values are less, equal or greater, and only one of the three. -/
  trichotomy : a.Comparable b → ∃! op, op ∈ [less, equal, greater] ∧ op.holds a b = true
  lessEqual_iff : a.Comparable b →
    (lessEqual.holds a b = true ↔ less.holds a b = true ∨ equal.holds a b = true)
  greaterEqual_iff : a.Comparable b →
    (greaterEqual.holds a b = true ↔ ¬ less.holds a b = true)

theorem lawsHold (a b : Value) : LawsHold a b := by
  have hswap := Value.compare?_swap a b
  refine { equal_swap := Value.equal_comm a b, notEqual_eq := rfl, less_swap := ?less_swap,
           lessEqual_swap := ?lessEqual_swap, of_nil := ?of_nil, trichotomy := ?trichotomy,
           lessEqual_iff := ?lessEqual_iff, greaterEqual_iff := ?greaterEqual_iff }
  case less_swap =>
    rw [holds, holds, ← hswap]
    rcases a.compare? b with _ | _ | _ | _ <;> rfl
  case lessEqual_swap =>
    rw [holds, holds, ← hswap]
    rcases a.compare? b with _ | _ | _ | _ <;> rfl
  case of_nil =>
    intro hnil
    exact holds_of_compare?_eq_none (Value.compare?_of_nil hnil)
  case trichotomy =>
    intro hcomparable
    obtain ⟨order, horder⟩ := Value.exists_compare?_iff.mpr hcomparable
    simp only [holds_of_compare? horder]
    exact existsUnique_accepts order
  case lessEqual_iff =>
    intro hcomparable
    obtain ⟨order, horder⟩ := Value.exists_compare?_iff.mpr hcomparable
    simp only [holds_of_compare? horder]
    cases order <;> decide
  case greaterEqual_iff =>
    intro hcomparable
    obtain ⟨order, horder⟩ := Value.exists_compare?_iff.mpr hcomparable
    simp only [holds_of_compare? horder]
    cases order <;> decide

/-- A padded text compares with a number as the number that it denotes. -/
theorem lawsHold_padded :
    let a := Value.text " 2.50 "
    let b := Value.number (.ofNat 10)
    a.Comparable b ∧ less.holds a b = true ∧ greater.holds b a = true ∧
      ∃! op, op ∈ [less, equal, greater] ∧ op.holds a b = true := by
  have hcomparable : (Value.text " 2.50 ").Comparable (.number (.ofNat 10)) :=
    Value.exists_compare?_iff.mp ⟨.lt, by decide +kernel⟩
  have hlaws := lawsHold (.text " 2.50 ") (.number (.ofNat 10))
  have hless : less.holds (.text " 2.50 ") (.number (.ofNat 10)) = true := by decide +kernel
  exact ⟨hcomparable, hless, hlaws.less_swap ▸ hless, hlaws.trichotomy hcomparable⟩

end Comparison

end ColumnFormula
