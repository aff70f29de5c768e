import ColumnFormula.Proofs.Binding.Letters
import Mathlib.Data.String.Basic

/-!
# Letters as numerals

Runs of capital letters, the shorter ones first and runs of one length in dictionary order, are
counted through by their values. Letters are worth 1 to 26 and none is worth nothing, so the values
of all runs of one length lie between two bounds (`le_lettersValue` and `lettersValue_le`), and the
bounds of the next length begin where these end; hence a longer run has a larger value. The same
bounds say that behind a larger letter no rest can make up for it, which gives the order in the
dictionary (`lettersValue_lt_of_comesBefore`). Two different runs are always in order, so they never
have one value; and every value is reached, by dividing by 26 with a remainder from 1 to 26
(`exists_lettersValue_eq`). The position is one less than the value as long as the value is a word
of 64 bits (`columnLetterIndex?_eq_some_iff`), and all of this carries over to positions
(`columnLetters_count`).
-/

set_option autoImplicit false
set_option relaxedAutoImplicit false

namespace ColumnFormula

/-! ### Bounds -/

theorem isUpper_iff {c : Char} : c.isUpper = true ↔ 65 ≤ c.toNat ∧ c.toNat ≤ 90 := by
  have hrange : c.isUpper = true ↔ 'A'.val ≤ c.val ∧ c.val ≤ 'Z'.val := decide_eq_true_iff
  rw [hrange]
  exact and_congr UInt32.le_iff_toNat_le UInt32.le_iff_toNat_le

theorem letterValue_bounds {c : Char} (h : c.isUpper = true) :
    1 ≤ letterValue c ∧ letterValue c ≤ 26 := by
  have hA : 'A'.toNat = 65 := rfl
  obtain ⟨hlow, hhigh⟩ := isUpper_iff.mp h
  unfold letterValue
  omega

theorem letterValue_lt {c d : Char} (hc : c.isUpper = true) (h : c < d) :
    letterValue c < letterValue d := by
  have hA : 'A'.toNat = 65 := rfl
  have hlow := (isUpper_iff.mp hc).1
  have hlt : c.toNat < d.toNat := h
  unfold letterValue
  omega

/-- The value of letters is at least that of as many letters `A`. -/
theorem le_lettersValue {letters : List Char} (h : ∀ c ∈ letters, c.isUpper = true) :
    26 ^ letters.length ≤ 25 * lettersValue letters + 1 := by
  induction letters with
  | nil => exact Nat.le_refl 1
  | cons c rest ih =>
    obtain ⟨hc, hrest⟩ := List.forall_mem_cons.mp h
    have hbehind := ih hrest
    have hfirst : 1 * 26 ^ rest.length ≤ letterValue c * 26 ^ rest.length :=
      Nat.mul_le_mul_right _ (letterValue_bounds hc).1
    rw [List.length_cons, Nat.pow_succ, lettersValue]
    omega

/-- The value of letters is at most that of as many letters `Z`, one less than the value of letters
`A` that are one more. -/
theorem lettersValue_le {letters : List Char} (h : ∀ c ∈ letters, c.isUpper = true) :
    25 * lettersValue letters + 26 ≤ 26 ^ (letters.length + 1) := by
  induction letters with
  | nil => exact Nat.le_refl 26
  | cons c rest ih =>
    obtain ⟨hc, hrest⟩ := List.forall_mem_cons.mp h
    have hbehind := ih hrest
    have hfirst : letterValue c * 26 ^ rest.length ≤ 26 * 26 ^ rest.length :=
      Nat.mul_le_mul_right _ (letterValue_bounds hc).2
    rw [Nat.pow_succ] at hbehind
    rw [List.length_cons, Nat.pow_succ, Nat.pow_succ, lettersValue]
    omega

/-! ### Order -/

theorem lettersValue_lt_of_length_lt {first second : List Char}
    (hfirst : ∀ c ∈ first, c.isUpper = true) (hsecond : ∀ c ∈ second, c.isUpper = true)
    (h : first.length < second.length) : lettersValue first < lettersValue second := by
  have hpower : 26 ^ (first.length + 1) ≤ 26 ^ second.length :=
    Nat.pow_le_pow_right (by decide) h
  have hhigh := lettersValue_le hfirst
  have hlow := le_lettersValue hsecond
  omega

/-- The first letters that differ decide, since the rests differ by less than one letter is
worth. -/
theorem lettersValue_lt_of_lt {first second : List Char}
    (hfirst : ∀ c ∈ first, c.isUpper = true) (hsecond : ∀ c ∈ second, c.isUpper = true)
    (hlength : first.length = second.length) (h : first < second) :
    lettersValue first < lettersValue second := by
  induction first generalizing second with
  | nil =>
    obtain rfl := List.length_eq_zero_iff.mp hlength.symm
    exact absurd h (List.not_lt_nil [])
  | cons c rest ih =>
    cases second with
    | nil => cases hlength
    | cons d others =>
      obtain ⟨hc, hrest⟩ := List.forall_mem_cons.mp hfirst
      obtain ⟨hd, hothers⟩ := List.forall_mem_cons.mp hsecond
      have hlengths : rest.length = others.length := Nat.succ.inj hlength
      rw [lettersValue, lettersValue, hlengths]
      rcases List.cons_lt_cons_iff.mp h with hlt | ⟨rfl, hlt⟩
      · have hletter : (letterValue c + 1) * 26 ^ others.length ≤
            letterValue d * 26 ^ others.length :=
          Nat.mul_le_mul_right _ (letterValue_lt hc hlt)
        have hhigh := lettersValue_le hrest
        have hlow := le_lettersValue hothers
        rw [hlengths, Nat.pow_succ] at hhigh
        rw [Nat.succ_mul] at hletter
        omega
      · exact Nat.add_lt_add_left (ih hrest hothers hlengths hlt) _

/-- Shorter texts come first, and texts of one length in dictionary order. -/
def ComesBefore (first second : String) : Prop :=
  first.length < second.length ∨ first.length = second.length ∧ first < second

theorem comesBefore_trichotomy (first second : String) :
    ComesBefore first second ∨ first = second ∨ ComesBefore second first := by
  unfold ComesBefore
  rcases Nat.lt_trichotomy first.length second.length with hlt | heq | hgt
  · exact .inl (.inl hlt)
  · rcases lt_trichotomy first second with hlt | rfl | hgt
    · exact .inl (.inr ⟨heq, hlt⟩)
    · exact .inr (.inl rfl)
    · exact .inr (.inr (.inr ⟨heq.symm, hgt⟩))
  · exact .inr (.inr (.inl hgt))

theorem IsLetters.isUpper {text : String} (h : IsLetters text) :
    ∀ c ∈ text.toList, c.isUpper = true := List.all_eq_true.mp h.2

theorem lettersValue_lt_of_comesBefore {first second : String} (hfirst : IsLetters first)
    (hsecond : IsLetters second) (h : ComesBefore first second) :
    lettersValue first.toList < lettersValue second.toList := by
  rcases h with hlength | ⟨hlength, hlt⟩
  · rw [← String.length_toList, ← String.length_toList] at hlength
    exact lettersValue_lt_of_length_lt hfirst.isUpper hsecond.isUpper hlength
  · rw [← String.length_toList, ← String.length_toList] at hlength
    exact lettersValue_lt_of_lt hfirst.isUpper hsecond.isUpper hlength
      (String.lt_iff_toList_lt.mp hlt)

/-! ### Every value -/

theorem lettersValue_concat (letters : List Char) (c : Char) :
    lettersValue (letters ++ [c]) = lettersValue letters * 26 + letterValue c := by
  induction letters with
  | nil => simp [lettersValue]
  | cons d rest ih =>
    rw [List.cons_append, lettersValue, ih, lettersValue, List.length_append,
      List.length_singleton, Nat.pow_succ]
    ring

/-- Division by 26 gives the last letter as a remainder that is never zero. -/
theorem exists_lettersValue_eq (n : Nat) :
    ∃ letters : List Char, (∀ c ∈ letters, c.isUpper = true) ∧ lettersValue letters = n := by
  induction n using Nat.strongRecOn with
  | ind n ih =>
    cases n with
    | zero => exact ⟨[], by simp, rfl⟩
    | succ n =>
      obtain ⟨letters, hletters, hvalue⟩ := ih (n / 26) (by omega)
      have hlast : ∀ r < 26, (Char.ofNat (65 + r)).isUpper = true ∧
          letterValue (Char.ofNat (65 + r)) = r + 1 := by decide
      obtain ⟨hupper, hletter⟩ := hlast (n % 26) (Nat.mod_lt _ (by decide))
      refine ⟨letters ++ [Char.ofNat (65 + n % 26)], ?_, ?_⟩
      · exact List.forall_mem_append.mpr ⟨hletters, List.forall_mem_singleton.mpr hupper⟩
      · rw [lettersValue_concat, hvalue, hletter]
        omega

/-! ### Positions -/

theorem columnLetterIndex?_of_not_isLetters {text : String} (h : ¬IsLetters text) :
    columnLetterIndex? text = none := by
  refine if_neg fun hletters ↦ h ?_
  simpa [IsLetters] using hletters

/-- A text denotes a position exactly if it is a run of letters whose value, which is one more, is a
word. -/
theorem columnLetterIndex?_eq_some_iff {text : String} {index : Nat} :
    columnLetterIndex? text = some index ↔
      IsLetters text ∧ lettersValue text.toList = index + 1 ∧ index + 1 < UInt64.size := by
  by_cases hletters : IsLetters text
  · have hpos : 0 < lettersValue text.toList := by
      have hempty : lettersValue [] < lettersValue text.toList :=
        lettersValue_lt_of_length_lt (by simp) hletters.isUpper
          (List.length_pos_iff.mpr hletters.1)
      exact hempty
    rw [columnLetterIndex?_of_isLetters hletters]
    split
    · rw [Option.some.injEq]
      constructor
      · rintro rfl
        exact ⟨hletters, by omega, by omega⟩
      · rintro ⟨-, hvalue, -⟩
        omega
    · simp only [reduceCtorEq, false_iff]
      rintro ⟨-, hvalue, hword⟩
      omega
  · rw [columnLetterIndex?_of_not_isLetters hletters]
    simp [hletters]

theorem index_lt_of_comesBefore {first second : String} {i j : Nat}
    (hfirst : columnLetterIndex? first = some i) (hsecond : columnLetterIndex? second = some j)
    (h : ComesBefore first second) : i < j := by
  obtain ⟨hletters, hvalue, -⟩ := columnLetterIndex?_eq_some_iff.mp hfirst
  obtain ⟨hothers, hother, -⟩ := columnLetterIndex?_eq_some_iff.mp hsecond
  have hlt := lettersValue_lt_of_comesBefore hletters hothers h
  omega

theorem eq_of_columnLetterIndex? {first second : String} {index : Nat}
    (hfirst : columnLetterIndex? first = some index)
    (hsecond : columnLetterIndex? second = some index) : first = second := by
  rcases comesBefore_trichotomy first second with h | h | h
  · exact absurd (index_lt_of_comesBefore hfirst hsecond h) (Nat.lt_irrefl index)
  · exact h
  · exact absurd (index_lt_of_comesBefore hsecond hfirst h) (Nat.lt_irrefl index)

theorem exists_columnLetterIndex? {index : Nat} (h : index + 1 < UInt64.size) :
    ∃ text, columnLetterIndex? text = some index := by
  obtain ⟨letters, hletters, hvalue⟩ := exists_lettersValue_eq (index + 1)
  refine ⟨.ofList letters, columnLetterIndex?_eq_some_iff.mpr ⟨⟨?_, ?_⟩, ?_, h⟩⟩
  · rw [String.toList_ofList]
    rintro rfl
    cases hvalue
  · rw [String.toList_ofList]
    exact List.all_eq_true.mpr hletters
  · rw [String.toList_ofList]
    exact hvalue

/-- The position of letters is one less than the number they denote in base 26 with the digits
`A` = 1 to `Z` = 26, and no text has a position that is no run of letters or whose number is no word
of 64 bits. No two texts have one position, every position below the greatest word is that of
exactly one text, and the positions count through the texts that have one: longer runs come behind
shorter ones, and runs of one length are in dictionary order. -/
theorem columnLetters_count :
    (∀ text index, columnLetterIndex? text = some index ↔
      IsLetters text ∧ lettersValue text.toList = index + 1 ∧ index + 1 < UInt64.size) ∧
    (∀ first second index, columnLetterIndex? first = some index →
      columnLetterIndex? second = some index → first = second) ∧
    (∀ index, index + 1 < UInt64.size → ∃! text, columnLetterIndex? text = some index) ∧
    ∀ first second i j, columnLetterIndex? first = some i → columnLetterIndex? second = some j →
      (ComesBefore first second ↔ i < j) := by
  refine ⟨fun text index ↦ columnLetterIndex?_eq_some_iff,
    fun first second index ↦ eq_of_columnLetterIndex?, fun index hindex ↦ ?_,
    fun first second i j hfirst hsecond ↦ ⟨index_lt_of_comesBefore hfirst hsecond, fun hlt ↦ ?_⟩⟩
  · obtain ⟨text, htext⟩ := exists_columnLetterIndex? hindex
    exact ⟨text, htext, fun other hother ↦ eq_of_columnLetterIndex? hother htext⟩
  · rcases comesBefore_trichotomy first second with h | rfl | h
    · exact h
    · rw [hfirst] at hsecond
      exact absurd hlt (Nat.not_lt.mpr (Nat.le_of_eq (Option.some.inj hsecond).symm))
    · exact absurd hlt (Nat.lt_asymm (index_lt_of_comesBefore hsecond hfirst h))

/-- `Z` and `AA` are neighbours. At the end of the words of 64 bits, the last letters with a
position come before letters of the same length that have none. -/
theorem columnLetters_count_last :
    columnLetterIndex? "Z" = some 25 ∧ columnLetterIndex? "AA" = some 26 ∧
      (ComesBefore "Z" "AA" ↔ 25 < 26) ∧
      columnLetterIndex? "GKGWBYLWRXTLPO" = some (UInt64.size - 2) ∧
      (∃! text, columnLetterIndex? text = some (UInt64.size - 2)) ∧
      columnLetterIndex? "GKGWBYLWRXTLPP" = none := by
  obtain ⟨-, -, hexists, hcount⟩ := columnLetters_count
  have hZ : columnLetterIndex? "Z" = some 25 := by decide +kernel
  have hAA : columnLetterIndex? "AA" = some 26 := by decide +kernel
  exact ⟨hZ, hAA, hcount "Z" "AA" 25 26 hZ hAA, by decide +kernel,
    hexists (UInt64.size - 2) (by decide), by decide +kernel⟩

end ColumnFormula
