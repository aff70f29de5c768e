/-!
# Results that may be errors

Computations with errors are made of `bind`, `map` and `mapError`. Each lemma says for one of these
when the whole succeeds, or where its error comes from, in terms of the parts. A pass over a list
succeeds if every item does (`exists_mapM_eq_ok_iff`) and otherwise has the error of the first one
that fails (`mapM_eq_error_iff`): the list splits there, and in front of it every item is good
(`SplitsAt`).
-/

set_option autoImplicit false
set_option relaxedAutoImplicit false

namespace ColumnFormula

theorem ok_bind {ε α β : Type} (a : α) (f : α → Except ε β) : (Except.ok a >>= f) = f a := rfl

theorem bind_eq_ok_iff {ε α β : Type} {x : Except ε α} {f : α → Except ε β} {b : β} :
    x >>= f = .ok b ↔ ∃ a, x = .ok a ∧ f a = .ok b := by
  cases x with
  | ok a =>
    constructor
    · exact fun h ↦ ⟨a, rfl, h⟩
    · rintro ⟨_, ⟨⟩, h⟩
      exact h
  | error e =>
    constructor
    · nofun
    · rintro ⟨_, ⟨⟩, _⟩

theorem map_eq_ok_iff {ε α β : Type} {x : Except ε α} {f : α → β} {b : β} :
    x.map f = .ok b ↔ ∃ a, x = .ok a ∧ f a = b := by
  cases x with
  | ok a =>
    constructor
    · exact fun h ↦ ⟨a, rfl, Except.ok.inj h⟩
    · rintro ⟨_, ⟨⟩, rfl⟩
      rfl
  | error error => exact ⟨nofun, nofun⟩

theorem map_eq_error_iff {ε α β : Type} {x : Except ε α} {f : α → β} {e : ε} :
    x.map f = .error e ↔ x = .error e := by
  cases x with
  | ok a => exact ⟨nofun, nofun⟩
  | error d =>
    exact ⟨fun h ↦ congrArg _ (Except.error.inj h), fun h ↦ congrArg _ (Except.error.inj h)⟩

theorem exists_map_eq_ok_iff {ε α β : Type} {x : Except ε α} {f : α → β} :
    (∃ b, x.map f = .ok b) ↔ ∃ a, x = .ok a := by
  simp only [map_eq_ok_iff]
  exact ⟨fun ⟨_, a, h, _⟩ ↦ ⟨a, h⟩, fun ⟨a, h⟩ ↦ ⟨f a, a, h, rfl⟩⟩

theorem mapError_eq_ok_iff {ε δ α : Type} {x : Except ε α} {f : ε → δ} {a : α} :
    x.mapError f = .ok a ↔ x = .ok a := by
  cases x with
  | ok b => exact ⟨fun h ↦ congrArg _ (Except.ok.inj h), fun h ↦ congrArg _ (Except.ok.inj h)⟩
  | error e => exact ⟨nofun, nofun⟩

theorem exists_of_isSome_toOption {ε α : Type} {x : Except ε α} (h : x.toOption.isSome = true) :
    ∃ a, x = .ok a := by
  cases x with
  | ok a => exact ⟨a, rfl⟩
  | error e => cases h

theorem exists_of_bind_eq_error {ε α β : Type} {x : Except ε α} {f : α → Except ε β} {e : ε}
    (h : x >>= f = .error e) : x = .error e ∨ ∃ a, x = .ok a ∧ f a = .error e := by
  cases x with
  | ok a => exact .inr ⟨a, rfl, h⟩
  | error d => exact .inl (congrArg Except.error (Except.error.inj h))

theorem bind_eq_error_iff {ε α β : Type} {x : Except ε α} {f : α → Except ε β} {e : ε} :
    x >>= f = .error e ↔ x = .error e ∨ ∃ a, x = .ok a ∧ f a = .error e := by
  refine ⟨exists_of_bind_eq_error, ?_⟩
  rintro (rfl | ⟨a, rfl, h⟩)
  · rfl
  · exact h

theorem exists_of_mapError_eq_error {ε δ α : Type} {x : Except ε α} {f : ε → δ} {e : δ}
    (h : x.mapError f = .error e) : ∃ d, e = f d := by
  cases x with
  | ok a => cases h
  | error d => exact ⟨d, (Except.error.inj h).symm⟩

/-! ### Splitting a list -/

section Split

variable {α : Type} {p : α → Prop} {q : Nat → α → Prop} {item : α} {items : List α}

/-- An item of the list satisfies `q` together with its position, and those in front of it all
satisfy `p`. -/
def SplitsAt (p : α → Prop) (q : Nat → α → Prop) (items : List α) : Prop :=
  ∃ front item behind, items = front ++ item :: behind ∧ (∀ other ∈ front, p other) ∧
    q front.length item

theorem not_splitsAt_nil : ¬SplitsAt p q [] := by
  rintro ⟨front, item, behind, hitems, -⟩
  exact List.append_ne_nil_of_right_ne_nil front (List.cons_ne_nil item behind) hitems.symm

theorem splitsAt_cons_iff :
    SplitsAt p q (item :: items) ↔ q 0 item ∨ p item ∧ SplitsAt p (fun n ↦ q (n + 1)) items := by
  constructor
  · rintro ⟨front, found, behind, hitems, hfront, hfound⟩
    cases front with
    | nil =>
      obtain ⟨rfl, -⟩ := List.cons.inj hitems
      exact .inl hfound
    | cons first rest =>
      obtain ⟨rfl, hrest⟩ := List.cons.inj hitems
      obtain ⟨hitem, hbefore⟩ := List.forall_mem_cons.mp hfront
      exact .inr ⟨hitem, rest, found, behind, hrest, hbefore, hfound⟩
  · rintro (hitem | ⟨hitem, front, found, behind, rfl, hfront, hfound⟩)
    · exact ⟨[], item, items, rfl, fun other hother ↦ absurd hother List.not_mem_nil, hitem⟩
    · exact ⟨item :: front, found, behind, rfl, List.forall_mem_cons.mpr ⟨hitem, hfront⟩, hfound⟩

end Split

/-! ### Passes over a list -/

section Pass

variable {ε α β : Type} {f : α → Except ε β} {item : α} {items : List α} {error : ε}

/-- The first item of the list that fails has the given error. -/
def FailsFirst (f : α → Except ε β) (items : List α) (error : ε) : Prop :=
  SplitsAt (fun other ↦ ∃ b, f other = .ok b) (fun _ item ↦ f item = .error error) items

theorem not_failsFirst_nil : ¬FailsFirst f [] error := not_splitsAt_nil

theorem failsFirst_cons_iff :
    FailsFirst f (item :: items) error ↔
      f item = .error error ∨ (∃ b, f item = .ok b) ∧ FailsFirst f items error :=
  splitsAt_cons_iff

/-- A pass over a list succeeds exactly if every item does. -/
theorem exists_mapM_eq_ok_iff :
    (∃ results, items.mapM f = .ok results) ↔ ∀ item ∈ items, ∃ b, f item = .ok b := by
  induction items with
  | nil => exact ⟨fun _ item hitem ↦ absurd hitem List.not_mem_nil, fun _ ↦ ⟨[], rfl⟩⟩
  | cons item rest ih =>
    rw [List.mapM_cons, List.forall_mem_cons, ← ih]
    constructor
    · rintro ⟨results, h⟩
      obtain ⟨b, hb, hmap⟩ := bind_eq_ok_iff.mp h
      obtain ⟨others, hothers, -⟩ := map_eq_ok_iff.mp hmap
      exact ⟨⟨b, hb⟩, others, hothers⟩
    · rintro ⟨⟨b, hb⟩, others, hothers⟩
      exact ⟨b :: others, bind_eq_ok_iff.mpr ⟨b, hb, map_eq_ok_iff.mpr ⟨others, hothers, rfl⟩⟩⟩

/-- A pass over a list stops at the first item that fails. -/
theorem mapM_eq_error_iff : items.mapM f = .error error ↔ FailsFirst f items error := by
  induction items with
  | nil => exact ⟨nofun, fun h ↦ absurd h not_failsFirst_nil⟩
  | cons item rest ih =>
    rw [List.mapM_cons, bind_eq_error_iff, failsFirst_cons_iff, ← ih]
    refine or_congr_right ⟨?_, ?_⟩
    · rintro ⟨b, hb, hrest⟩
      exact ⟨⟨b, hb⟩, map_eq_error_iff.mp hrest⟩
    · rintro ⟨⟨b, hb⟩, hrest⟩
      exact ⟨b, hb, map_eq_error_iff.mpr hrest⟩

theorem failsFirst_map_iff {γ : Type} {g : β → γ} :
    FailsFirst (fun item ↦ (f item).map g) items error ↔ FailsFirst f items error := by
  simp only [FailsFirst, SplitsAt, exists_map_eq_ok_iff, map_eq_error_iff]

/-- Where a condition tells which items fail, the first item to satisfy it gives the error. -/
theorem failsFirst_iff_find? {fails : α → Bool} {errorOf : α → ε}
    (hok : ∀ item, fails item = false → ∃ b, f item = .ok b)
    (herror : ∀ item, fails item = true → f item = .error (errorOf item)) :
    FailsFirst f items error ↔ ∃ item, items.find? fails = some item ∧ error = errorOf item := by
  constructor
  · rintro ⟨front, item, behind, hitems, hfront, hitem⟩
    have hpasses : ∀ other, (∃ b, f other = .ok b) → fails other = false := by
      rintro other ⟨b, hb⟩
      refine Bool.eq_false_iff.mpr fun hfails ↦ ?_
      cases hb.symm.trans (herror other hfails)
    have hfails : fails item = true := by
      refine Bool.not_eq_false _ |>.mp fun hpass ↦ ?_
      obtain ⟨b, hb⟩ := hok item hpass
      cases hb.symm.trans hitem
    refine ⟨item, ?_, Except.error.inj (hitem.symm.trans (herror item hfails))⟩
    refine List.find?_eq_some_iff_append.mpr ⟨hfails, front, behind, hitems, ?_⟩
    intro other hother
    rw [hpasses other (hfront other hother), Bool.not_false]
  · rintro ⟨item, hfind, rfl⟩
    obtain ⟨hfails, front, behind, hitems, hfront⟩ := List.find?_eq_some_iff_append.mp hfind
    refine ⟨front, item, behind, hitems, fun other hother ↦ ?_, herror item hfails⟩
    exact hok other (Bool.not_eq_eq_eq_not.mp (hfront other hother))

end Pass

end ColumnFormula
