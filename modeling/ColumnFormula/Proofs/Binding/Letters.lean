import ColumnFormula.Proofs.Table.Programs
import Mathlib.Tactic.Ring

/-!
# Column letters

A run of capital letters is a numeral in base 26 with the digits 1 to 26 and no zero
(`lettersValue`), and the position of its column is one less. Reading it letter by letter in words
of 64 bits gives that value exactly if it fits a word: values only grow, so a carry out of the word
at any letter stays out (`foldlM_appendLetter`). From this follows what letters mean in a formula
(`Schema.bind_letters`): the column at their position, whatever the columns are called, or no column
at all. Letters past 64 bits are the exception, since they are looked up like any other word; a
column that has such a name is found by it (`Schema.resolve_letters_past_words`).
-/

set_option autoImplicit false
set_option relaxedAutoImplicit false

namespace ColumnFormula

/-! ### The value of letters -/

/-- One or more of the letters `A` to `Z`. -/
def IsLetters (text : String) : Prop := text.toList ≠ [] ∧ text.toList.all Char.isUpper = true

instance (text : String) : Decidable (IsLetters text) := by
  unfold IsLetters
  infer_instance

/-- The number that letters denote in base 26, the most significant letter first. -/
def lettersValue : List Char → Nat
  | [] => 0
  | c :: rest => letterValue c * 26 ^ rest.length + lettersValue rest

theorem checkedWord_bind {α : Type} (n : Nat) (f : Nat → Option α) :
    checkedWord n >>= f = if n < UInt64.size then f n else none := by
  unfold checkedWord
  split <;> rfl

/-- Appending a letter fails exactly if the longer numeral does not fit a word. -/
theorem appendLetter_eq (value : Nat) (c : Char) :
    appendLetter value c = checkedWord (value * 26 + letterValue c) := by
  rw [appendLetter, checkedWord_bind]
  split
  · rfl
  · rename_i hcarry
    rw [checkedWord, if_neg (by omega)]

/-- Letters behind a word give their value if it fits a word, and nothing otherwise. -/
theorem foldlM_appendLetter {value : Nat} (h : value < UInt64.size) (letters : List Char) :
    letters.foldlM appendLetter value =
      checkedWord (value * 26 ^ letters.length + lettersValue letters) := by
  induction letters generalizing value with
  | nil => simp [checkedWord, lettersValue, h]
  | cons c rest ih =>
    have hvalue : value * 26 ^ (c :: rest).length + lettersValue (c :: rest) =
        (value * 26 + letterValue c) * 26 ^ rest.length + lettersValue rest := by
      rw [List.length_cons, lettersValue]
      ring
    rw [List.foldlM_cons, appendLetter_eq, checkedWord_bind, hvalue]
    split
    · rename_i hword
      exact ih hword
    · rename_i hcarry
      -- What has left the word once is not brought back by further letters.
      have hgrows : value * 26 + letterValue c ≤
          (value * 26 + letterValue c) * 26 ^ rest.length :=
        Nat.le_mul_of_pos_right _ (Nat.pow_pos (by decide))
      rw [checkedWord, if_neg (by omega)]

/-- The position of letters is one less than their value, as long as the value is a word. -/
theorem columnLetterIndex?_of_isLetters {text : String} (h : IsLetters text) :
    columnLetterIndex? text =
      if lettersValue text.toList < UInt64.size then some (lettersValue text.toList - 1)
      else none := by
  obtain ⟨hne, hupper⟩ := h
  have hsome : (!text.toList.isEmpty && text.toList.all Char.isUpper) = true := by
    simpa [hupper] using hne
  have hzero : 0 < UInt64.size := by decide
  have hvalue := foldlM_appendLetter hzero text.toList
  rw [Nat.zero_mul, Nat.zero_add] at hvalue
  rw [columnLetterIndex?, if_pos hsome, hvalue, checkedWord]
  split <;> rfl

/-! ### Letters in a formula -/

/-- The column that letters denote by their position alone. -/
def Schema.columnAtLetters (schema : Schema) (text : String) : Except BindError BoundColumn :=
  if lettersValue text.toList - 1 < schema.width then
    .ok (schema.columnAt (lettersValue text.toList - 1) text)
  else .error (.nameResolution text)

/-- Letters whose value is a word denote a position. -/
theorem Schema.resolveName_of_lt {schema : Schema} {text : String} (htext : IsLetters text)
    (hword : lettersValue text.toList < UInt64.size) :
    schema.resolveName text = schema.columnAtLetters text := by
  rw [resolveName, columnLetterIndex?_of_isLetters htext, if_pos hword]
  rfl

/-- Letters past 64 bits are a name like any other word. -/
theorem Schema.resolveName_of_ge {schema : Schema} {text : String} (htext : IsLetters text)
    (hword : UInt64.size ≤ lettersValue text.toList) :
    schema.resolveName text =
      match schema.lookup text with
      | some index => .ok (schema.columnAt index text)
      | none => .error (.nameResolution text) := by
  rw [resolveName, columnLetterIndex?_of_isLetters htext, if_neg (Nat.not_lt.mpr hword),
    Option.none_or]
  cases hlookup : schema.lookup text with
  | none => rfl
  | some index => exact if_pos (lt_width_of_lookup hlookup)

/-- A position past the width is no column. -/
theorem Schema.columnAtLetters_of_ge {schema : Schema} {text : String}
    (hwidth : schema.width < UInt64.size) (hword : UInt64.size ≤ lettersValue text.toList) :
    schema.columnAtLetters text = .error (.nameResolution text) :=
  if_neg (by omega)

/-- What a run of letters means in a formula over a schema whose width is a word, bare or in
brackets, as a value or as the target of an assignment: the column at their position, or no column
if the position is past the width. Only letters whose value is not a word may be a name, and then
the column of that name is meant. -/
theorem Schema.bind_letters {schema : Schema} (hwidth : schema.width < UInt64.size)
    {text : String} (htext : IsLetters text) {reference : Reference}
    (hreference : reference = .identifier text ∨ reference = .columnName text) :
    let column := match schema.lookup text with
      | some index =>
        if UInt64.size ≤ lettersValue text.toList then .ok (schema.columnAt index text)
        else schema.columnAtLetters text
      | none => schema.columnAtLetters text
    (Expr.reference reference).bind schema = column.map .reference ∧
      ∀ value, (Statement.assign reference value).bind schema = (do
        let target ← column
        let value ← value.bind schema
        .ok (.assign target value)) := by
  intro column
  have hname : schema.resolve reference = schema.resolveName text := by
    rcases hreference with rfl | rfl <;> rfl
  have hcolumn : schema.resolve reference = column := by
    rw [hname]
    by_cases hword : lettersValue text.toList < UInt64.size
    · rw [resolveName_of_lt htext hword]
      cases hlookup : schema.lookup text with
      | none => simp only [column, hlookup]
      | some index => simp only [column, hlookup, if_neg (Nat.not_le.mpr hword)]
    · have hge := Nat.not_lt.mp hword
      rw [resolveName_of_ge htext hge]
      cases hlookup : schema.lookup text with
      | none => simp only [column, hlookup, columnAtLetters_of_ge hwidth hge]
      | some index => simp only [column, hlookup, if_pos hge]
  refine ⟨?_, fun value ↦ ?_⟩
  · rw [← hcolumn]
    rfl
  · rw [← hcolumn]
    rfl

/-- `[A] = A` on a table with the columns `x` and `A`: the letter is the first column. -/
theorem Schema.bind_letters_shadowed :
    let schema := Schema.ofNames ["x", "A"]
    schema.width < UInt64.size ∧ IsLetters "A" ∧
      (Expr.reference (.identifier "A")).bind schema = .ok (.reference ⟨0, "x"⟩) ∧
      (Statement.assign (.columnName "A") (.reference (.identifier "A"))).bind schema =
        .ok (.assign ⟨0, "x"⟩ (.reference ⟨0, "x"⟩)) := by
  intro schema
  have hwidth : schema.width < UInt64.size := by decide
  have hletters : IsLetters "A" := by decide +kernel
  refine ⟨hwidth, hletters, ?_, ?_⟩
  · exact (Schema.bind_letters hwidth hletters (.inl rfl)).1.trans rfl
  · exact ((Schema.bind_letters hwidth hletters (.inr rfl)).2 _).trans rfl

/-- Fourteen letters `Z` are past 64 bits: as the name of the only column they denote it, bare and
in brackets, though their position is far past the width. -/
theorem Schema.resolve_letters_past_words :
    let text := "ZZZZZZZZZZZZZZ"
    let schema := Schema.ofNames [text]
    IsLetters text ∧ schema.columnAtLetters text = .error (.nameResolution text) ∧
      schema.resolve (.identifier text) = .ok ⟨0, text⟩ ∧
      schema.resolve (.columnName text) = .ok ⟨0, text⟩ := by
  decide +kernel

end ColumnFormula
