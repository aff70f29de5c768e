import ColumnFormula.Schema

/-!
# Schemas as lists of names

A schema has entries for its named columns only, but it stands for the list of all names, in which
the unnamed columns are empty (`Schema.Lists`). Since the entries ascend, each position has at most
one of them (`names_lookup_eq_some_iff`), and the first entry with a name is the one at the least
position; so what is found under a name depends on nothing but the names of the columns
(`lookup_eq_some_iff`). Appending a column appends its name (`Lists.push`), and putting an entry at
a position is an update of the map from positions to names (`lookup_insertName`), so a schema made
of a map lists the names at their positions (`lists_ofEntries`). By induction on the columns that
are appended after it was made, a schema is the list of its names ever after (`refines_names`).
-/

set_option autoImplicit false
set_option relaxedAutoImplicit false

namespace ColumnFormula.Schema

variable {schema : Schema} {names : List String} {name : String} {index : Nat}

/-! ### Entries -/

theorem lookup_cons (entry : Nat × String) (rest : List (Nat × String)) (place : Nat) :
    (entry :: rest).lookup place = if place = entry.1 then some entry.2 else rest.lookup place := by
  rw [List.lookup_cons]
  by_cases hplace : place = entry.1
  · simp [hplace]
  · simp [hplace, beq_false_of_ne hplace]

/-- An entry is found at its position if no other entry has it. -/
theorem lookup_of_mem {entries : List (Nat × String)}
    (hdistinct : entries.Pairwise fun a b ↦ a.1 ≠ b.1) (hmem : (index, name) ∈ entries) :
    entries.lookup index = some name := by
  induction entries with
  | nil => cases hmem
  | cons entry rest ih =>
    obtain ⟨hfirst, hrest⟩ := List.pairwise_cons.mp hdistinct
    rw [lookup_cons]
    rcases List.mem_cons.mp hmem with rfl | hmem
    · exact if_pos rfl
    · rw [if_neg (hfirst _ hmem).symm]
      exact ih hrest hmem

/-- Positions ascend, so each of them has one entry. -/
theorem names_lookup_eq_some_iff :
    schema.names.lookup index = some name ↔ (index, name) ∈ schema.names := by
  constructor
  · intro h
    obtain ⟨front, behind, hnames, -⟩ := List.lookup_eq_some_iff.mp h
    rw [hnames]
    exact List.mem_append_right _ List.mem_cons_self
  · exact lookup_of_mem (schema.ascending.imp Nat.ne_of_lt)

/-- A column has a name that is not empty exactly if there is an entry. -/
theorem nameOf_eq_some_iff_mem (hname : name ≠ "") :
    schema.nameOf index = some name ↔ (index, name) ∈ schema.names := by
  rw [← names_lookup_eq_some_iff, nameOf]
  constructor
  · intro h
    split at h
    · cases hlookup : schema.names.lookup index with
      | none =>
        rw [hlookup] at h
        exact absurd (Option.some.inj h).symm hname
      | some found =>
        rw [hlookup] at h
        exact h
    · cases h
  · intro h
    rw [if_pos (schema.lt_width _ (names_lookup_eq_some_iff.mp h)), h]
    rfl

/-! ### Looking up -/

theorem lookup_empty (schema : Schema) : schema.lookup "" = none := rfl

theorem lookup_of_ne (hname : name ≠ "") :
    schema.lookup name = (schema.names.find? fun entry ↦ entry.2 == name).map Prod.fst :=
  if_neg (by simpa using hname)

theorem isSome_lookup_of_mem (hname : name ≠ "") (h : (index, name) ∈ schema.names) :
    (schema.lookup name).isSome = true := by
  rw [lookup_of_ne hname, Option.isSome_map, List.find?_isSome]
  exact ⟨(index, name), h, beq_self_eq_true name⟩

/-- A column that is found has the name, and no column in front of it has. -/
theorem least_of_lookup (h : schema.lookup name = some index) :
    name ≠ "" ∧ schema.nameOf index = some name ∧
      ∀ earlier < index, schema.nameOf earlier ≠ some name := by
  have hname : name ≠ "" := by
    rintro rfl
    cases h
  rw [lookup_of_ne hname] at h
  obtain ⟨⟨_, found⟩, hfind, rfl⟩ := Option.map_eq_some_iff.mp h
  obtain ⟨heq, front, behind, hnames, hfront⟩ := List.find?_eq_some_iff_append.mp hfind
  obtain rfl : found = name := beq_iff_eq.mp heq
  have hmem := List.mem_of_find?_eq_some hfind
  refine ⟨hname, (nameOf_eq_some_iff_mem hname).mpr hmem, fun earlier hearlier hnameOf ↦ ?_⟩
  have hother := (nameOf_eq_some_iff_mem hname).mp hnameOf
  have hascending := schema.ascending
  rw [hnames] at hother hascending
  rcases List.mem_append.mp hother with hother | hother
  · simpa using hfront _ hother
  · have hbehind := (List.pairwise_cons.mp (List.pairwise_append.mp hascending).2.1).1
    rcases List.mem_cons.mp hother with heq | hother
    · exact Nat.ne_of_lt hearlier (congrArg Prod.fst heq)
    · exact Nat.lt_asymm hearlier (hbehind _ hother)

/-- A name is looked up at the least position where a column has it. -/
theorem lookup_eq_some_iff :
    schema.lookup name = some index ↔ name ≠ "" ∧ schema.nameOf index = some name ∧
      ∀ earlier < index, schema.nameOf earlier ≠ some name := by
  constructor
  · exact least_of_lookup
  · rintro ⟨hname, hindex, hleast⟩
    have hsome := isSome_lookup_of_mem hname ((nameOf_eq_some_iff_mem hname).mp hindex)
    obtain ⟨found, hfound⟩ := Option.isSome_iff_exists.mp hsome
    obtain ⟨-, hnamed, hfirst⟩ := least_of_lookup hfound
    rcases Nat.lt_trichotomy found index with hlt | rfl | hlt
    · exact absurd hnamed (hleast found hlt)
    · exact hfound
    · exact absurd hindex (hfirst index hlt)

/-! ### The list of names -/

/-- The names of the columns in order, empty for an unnamed one. -/
structure Lists (schema : Schema) (names : List String) : Prop where
  width_eq : schema.width = names.length
  nameOf_eq : ∀ index, schema.nameOf index = names[index]?

theorem lists_empty : empty.Lists [] where
  width_eq := rfl
  nameOf_eq _ := rfl

theorem width_push (schema : Schema) (name : String) :
    (schema.push name).width = schema.width + 1 := by
  unfold push
  split <;> rfl

theorem nameOf_push (schema : Schema) (name : String) (index : Nat) :
    (schema.push name).nameOf index =
      if index = schema.width then some name else schema.nameOf index := by
  -- The new column has no entry yet.
  have hnone : schema.names.lookup schema.width = none := by
    rw [List.lookup_eq_none_iff]
    exact fun entry hmem ↦ by simpa using Nat.ne_of_gt (schema.lt_width entry hmem)
  have hentry : ((schema.push name).names.lookup index).getD "" =
      if index = schema.width then name else (schema.names.lookup index).getD "" := by
    unfold push
    split
    · rename_i hempty
      obtain rfl : name = "" := by simpa using hempty
      by_cases hindex : index = schema.width <;> simp [hindex, hnone]
    · rw [List.lookup_append, lookup_cons]
      by_cases hindex : index = schema.width <;> simp [hindex, hnone]
  rw [nameOf, hentry, width_push, nameOf]
  by_cases hindex : index = schema.width
  · simp [hindex]
  · have hlt : index < schema.width + 1 ↔ index < schema.width := by omega
    simp only [hlt, if_neg hindex]

/-- A column that is appended is a name at the end. -/
theorem Lists.push (h : schema.Lists names) (name : String) :
    (schema.push name).Lists (names ++ [name]) where
  width_eq := by rw [width_push, h.width_eq, List.length_append, List.length_singleton]
  nameOf_eq index := by
    rw [nameOf_push, h.nameOf_eq, h.width_eq]
    split
    · rename_i hindex
      rw [hindex, List.getElem?_concat_length]
    · rename_i hindex
      rcases Nat.lt_or_gt_of_ne hindex with hlt | hgt
      · rw [List.getElem?_append_left hlt]
      · rw [List.getElem?_eq_none (Nat.le_of_lt hgt), List.getElem?_eq_none]
        rw [List.length_append, List.length_singleton]
        exact hgt

/-- The schema behind columns that are appended one after the other. -/
def appendAll (schema : Schema) (more : List String) : Schema :=
  more.foldl (fun schema name ↦ (schema.append name).2) schema

theorem Lists.appendAll (h : schema.Lists names) (more : List String) :
    (schema.appendAll more).Lists (names ++ more) := by
  induction more generalizing schema names with
  | nil =>
    rw [List.append_nil]
    exact h
  | cons name rest ih =>
    have hrest := ih (h.push name)
    rw [List.append_assoc] at hrest
    exact hrest

theorem lists_ofNames (names : List String) : (ofNames names).Lists names :=
  lists_empty.appendAll names

/-! ### Names at given positions -/

/-- Putting a name at a position changes what is found at this position only. -/
theorem lookup_insertName (index : Nat) (name : String) (entries : List (Nat × String))
    (place : Nat) :
    (insertName index name entries).lookup place =
      if place = index then some name else entries.lookup place := by
  induction entries with
  | nil => exact lookup_cons (index, name) [] place
  | cons first rest ih =>
    unfold insertName
    split
    · exact lookup_cons (index, name) (first :: rest) place
    · split
      · rename_i hindex
        rw [lookup_cons, lookup_cons, ← hindex]
        by_cases hplace : place = index <;> simp [hplace]
      · rename_i hindex
        rw [lookup_cons, lookup_cons, ih]
        by_cases hplace : place = first.1
        · simp [hplace, Ne.symm hindex]
        · simp [hplace]

theorem endOf_insertName (index : Nat) (name : String) (entries : List (Nat × String)) :
    endOf (insertName index name entries) = max (index + 1) (endOf entries) := by
  induction entries with
  | nil => rfl
  | cons first rest ih =>
    unfold insertName
    simp only [endOf, List.foldr_cons] at ih ⊢
    split
    · rfl
    · split <;> simp only [List.foldr_cons, ih] <;> omega

/-- The entries of a map of names, by their positions; the greatest word is no position. -/
def positioned (entries : List (String × Nat)) : List (Nat × String) :=
  (entries.filter fun entry ↦ entry.2 < positionLimit).map Prod.swap

theorem mem_positioned {entries : List (String × Nat)} :
    (index, name) ∈ positioned entries ↔ (name, index) ∈ entries ∧ index < positionLimit := by
  rw [positioned, List.mem_map]
  constructor
  · rintro ⟨⟨other, place⟩, hentry, heq⟩
    obtain ⟨rfl, rfl⟩ := Prod.mk.inj heq
    simpa using hentry
  · intro h
    exact ⟨(name, index), by simpa using h, rfl⟩

/-- The names of a map at their positions and the empty name elsewhere, up to the last
position. -/
def namesAt (entries : List (String × Nat)) : List String :=
  (List.range (endOf (positioned entries))).map fun index ↦
    ((positioned entries).lookup index).getD ""

theorem length_namesAt (entries : List (String × Nat)) :
    (namesAt entries).length = endOf (positioned entries) := by
  rw [namesAt, List.length_map, List.length_range]

theorem getElem?_namesAt (entries : List (String × Nat)) (index : Nat) :
    (namesAt entries)[index]? =
      if index < endOf (positioned entries) then
        some (((positioned entries).lookup index).getD "")
      else none := by
  rw [namesAt, List.getElem?_map]
  split
  · rename_i hlt
    rw [List.getElem?_range hlt]
    rfl
  · rename_i hge
    rw [List.getElem?_eq_none (by simpa using hge)]
    rfl

theorem names_ofEntries (entries : List (String × Nat)) :
    (ofEntries entries).names =
      (positioned entries).foldr (fun entry names ↦ insertName entry.1 entry.2 names) [] := by
  rw [positioned, List.foldr_map]
  rfl

theorem width_ofEntries (entries : List (String × Nat)) :
    (ofEntries entries).width = endOf (positioned entries) := by
  show endOf (ofEntries entries).names = _
  rw [names_ofEntries]
  induction positioned entries with
  | nil => rfl
  | cons entry rest ih =>
    rw [List.foldr_cons, endOf_insertName, ih]
    rfl

theorem lookup_names_ofEntries (entries : List (String × Nat)) (index : Nat) :
    (ofEntries entries).names.lookup index = (positioned entries).lookup index := by
  rw [names_ofEntries]
  induction positioned entries with
  | nil => rfl
  | cons entry rest ih => rw [List.foldr_cons, lookup_insertName, ih, lookup_cons]

/-- A schema that is made of a map has the names that the map puts at the positions. -/
theorem lists_ofEntries (entries : List (String × Nat)) :
    (ofEntries entries).Lists (namesAt entries) where
  width_eq := by rw [width_ofEntries, length_namesAt]
  nameOf_eq index := by
    rw [nameOf, width_ofEntries, lookup_names_ofEntries, getElem?_namesAt]

/-! ### Refinement -/

/-- The list that a map of names describes: every name stands at its position, every other place is
empty, and the last place has a name of the map. -/
structure Places (entries : List (String × Nat)) (names : List String) : Prop where
  /-- The greatest word of 64 bits is no position; an entry there is dropped. -/
  placed : ∀ name index, (name, index) ∈ entries → index + 1 < UInt64.size →
    names[index]? = some name
  unplaced : ∀ index < names.length, (∀ name, (name, index) ∉ entries) → names[index]? = some ""
  ends : ∀ last, names.length = last + 1 → ∃ name, (name, last) ∈ entries ∧ last + 1 < UInt64.size

theorem exists_of_endOf {entries : List (Nat × String)} {last : Nat}
    (h : endOf entries = last + 1) : ∃ name, (last, name) ∈ entries := by
  induction entries with
  | nil => cases h
  | cons entry rest ih =>
    simp only [endOf, List.foldr_cons] at ih h
    by_cases hentry : entry.1 = last
    · exact ⟨entry.2, hentry ▸ List.mem_cons_self⟩
    · obtain ⟨name, hmem⟩ := ih (by omega)
      exact ⟨name, List.mem_cons_of_mem _ hmem⟩

theorem places_namesAt {entries : List (String × Nat)}
    (h : entries.Pairwise fun a b ↦ a.2 ≠ b.2) : Places entries (namesAt entries) := by
  have hlimit : ∀ index, index < positionLimit ↔ index + 1 < UInt64.size := by
    unfold positionLimit
    omega
  have hdistinct : (positioned entries).Pairwise fun a b ↦ a.1 ≠ b.1 := by
    rw [positioned, List.pairwise_map]
    exact h.filter _
  refine ⟨fun name index hmem hlt ↦ ?_, fun index hlt hnone ↦ ?_, fun last hlast ↦ ?_⟩
  · have hentry := mem_positioned.mpr ⟨hmem, (hlimit index).mpr hlt⟩
    rw [getElem?_namesAt, if_pos (lt_endOf hentry), lookup_of_mem hdistinct hentry]
    rfl
  · have hlookup : (positioned entries).lookup index = none := by
      rw [List.lookup_eq_none_iff]
      intro entry hentry
      have hne : index ≠ entry.1 := by
        rintro rfl
        exact hnone entry.2 (mem_positioned.mp hentry).1
      simpa using hne
    rw [length_namesAt] at hlt
    rw [getElem?_namesAt, if_pos hlt, hlookup]
    rfl
  · rw [length_namesAt] at hlast
    obtain ⟨name, hentry⟩ := exists_of_endOf hlast
    obtain ⟨hmem, hlt⟩ := mem_positioned.mp hentry
    exact ⟨name, hmem, (hlimit last).mp hlt⟩

/-- The schema answers like the plain list of names, and it grows like the list. -/
structure Refines (schema : Schema) (names : List String) : Prop extends schema.Lists names where
  /-- The empty name is no name. -/
  lookup_empty : schema.lookup "" = none
  /-- Any other name is looked up at the least place where the list has it. -/
  lookup_iff : ∀ name, name ≠ "" → ∀ index, schema.lookup name = some index ↔
    names[index]? = some name ∧ ∀ earlier < index, names[earlier]? ≠ some name
  /-- An appended column stands at the old length. -/
  append : ∀ name, (schema.append name).1 = names.length ∧
    (schema.append name).2.Lists (names ++ [name])

theorem Lists.refines (h : schema.Lists names) : schema.Refines names where
  toLists := h
  lookup_empty := schema.lookup_empty
  lookup_iff name hname index := by
    simp only [← h.nameOf_eq]
    rw [lookup_eq_some_iff]
    exact and_iff_right hname
  append name := ⟨h.width_eq, h.push name⟩

/-- A schema that is made of a list of names, or of a map of names to positions no two of which are
the same, refines the list of its names, and it does so after any columns have been appended. -/
theorem refines_names :
    (∀ names more, ((ofNames names).appendAll more).Refines (names ++ more)) ∧
    ∀ entries : List (String × Nat), (entries.Pairwise fun a b ↦ a.2 ≠ b.2) →
      Places entries (namesAt entries) ∧
        ∀ more, ((ofEntries entries).appendAll more).Refines (namesAt entries ++ more) :=
  ⟨fun names more ↦ ((lists_ofNames names).appendAll more).refines,
    fun entries h ↦ ⟨places_namesAt h,
      fun more ↦ ((lists_ofEntries entries).appendAll more).refines⟩⟩

/-- Two names with a gap between them, and one at a position that no width can hold. -/
theorem refines_names_gap :
    let entries := [("price", 2), ("late", UInt64.size - 1), ("qty", 0)]
    (entries.Pairwise fun a b ↦ a.2 ≠ b.2) ∧
      Places entries ["qty", "", "price"] ∧
      ((ofEntries entries).appendAll ["total"]).Refines ["qty", "", "price", "total"] := by
  intro entries
  have hdistinct : entries.Pairwise fun a b ↦ a.2 ≠ b.2 := by decide
  obtain ⟨hplaces, hrefines⟩ := refines_names.2 entries hdistinct
  exact ⟨hdistinct, hplaces, hrefines ["total"]⟩

end ColumnFormula.Schema
