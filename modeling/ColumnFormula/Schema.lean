/-!
Column names by position. Only named columns have an entry, so a schema may be very wide and still
small; a column is found by the least position that carries its name. The entries are kept in order
of position and inside the width.
-/

set_option autoImplicit false
set_option relaxedAutoImplicit false

namespace ColumnFormula

/-- The named columns in ascending order of position, and the number of columns. -/
structure Schema where
  names : List (Nat × String)
  width : Nat
  ascending : names.Pairwise fun a b ↦ a.1 < b.1
  lt_width : ∀ entry ∈ names, entry.1 < width

namespace Schema

def empty : Schema := ⟨[], 0, .nil, by simp⟩

/-- Appends a column; its position is the old width. An empty name makes no entry. -/
def push (schema : Schema) (name : String) : Schema :=
  if name.isEmpty then
    ⟨schema.names, schema.width + 1, schema.ascending,
      fun entry h ↦ Nat.lt_succ_of_lt (schema.lt_width entry h)⟩
  else
    ⟨schema.names ++ [(schema.width, name)], schema.width + 1, by
      refine List.pairwise_append.2 ⟨schema.ascending, List.pairwise_singleton _ _, ?_⟩
      intro entry h other hother
      obtain rfl := List.mem_singleton.1 hother
      exact schema.lt_width entry h, by
      intro entry h
      rcases List.mem_append.1 h with h | h
      · exact Nat.lt_succ_of_lt (schema.lt_width entry h)
      · obtain rfl := List.mem_singleton.1 h
        exact Nat.lt_succ_self _⟩

/-- Appends a column and also gives its position. -/
def append (schema : Schema) (name : String) : Nat × Schema := (schema.width, schema.push name)

/-- The schema of a list of names. -/
def ofNames (names : List String) : Schema := names.foldl push empty

/-! ### Names at given positions -/

/-- Puts a name at a position of an ascending list; an entry there is replaced. -/
def insertName (index : Nat) (name : String) : List (Nat × String) → List (Nat × String)
  | [] => [(index, name)]
  | entry :: rest =>
    if index < entry.1 then (index, name) :: entry :: rest
    else if index = entry.1 then (index, name) :: rest
    else entry :: insertName index name rest

theorem mem_insertName {index : Nat} {name : String} {entries : List (Nat × String)}
    {entry : Nat × String} (h : entry ∈ insertName index name entries) :
    entry = (index, name) ∨ entry ∈ entries := by
  induction entries with
  | nil => exact Or.inl (List.mem_singleton.1 h)
  | cons first rest ih =>
    unfold insertName at h
    split at h
    · exact List.mem_cons.1 h
    · split at h
      · exact (List.mem_cons.1 h).imp_right (List.mem_cons_of_mem _)
      · rcases List.mem_cons.1 h with rfl | h
        · exact Or.inr List.mem_cons_self
        · exact (ih h).imp_right (List.mem_cons_of_mem _)

theorem pairwise_insertName {index : Nat} {name : String} {entries : List (Nat × String)}
    (h : entries.Pairwise fun a b ↦ a.1 < b.1) :
    (insertName index name entries).Pairwise fun a b ↦ a.1 < b.1 := by
  induction entries with
  | nil => exact List.pairwise_singleton _ _
  | cons first rest ih =>
    obtain ⟨hfirst, hrest⟩ := List.pairwise_cons.1 h
    unfold insertName
    split
    · rename_i hlt
      refine List.pairwise_cons.2 ⟨?_, h⟩
      intro entry hentry
      rcases List.mem_cons.1 hentry with rfl | hentry
      · exact hlt
      · exact Nat.lt_trans hlt (hfirst entry hentry)
    · split
      · rename_i heq
        exact List.pairwise_cons.2 ⟨fun entry hentry ↦ heq ▸ hfirst entry hentry, hrest⟩
      · refine List.pairwise_cons.2 ⟨?_, ih hrest⟩
        intro entry hentry
        rcases mem_insertName hentry with rfl | hentry
        · dsimp only
          omega
        · exact hfirst entry hentry

/-- One past the greatest position. -/
def endOf (entries : List (Nat × String)) : Nat :=
  entries.foldr (fun entry width ↦ max (entry.1 + 1) width) 0

theorem lt_endOf {entries : List (Nat × String)} {entry : Nat × String} (h : entry ∈ entries) :
    entry.1 < endOf entries := by
  induction entries with
  | nil => simp at h
  | cons first rest ih =>
    simp only [endOf, List.foldr_cons]
    rcases List.mem_cons.1 h with rfl | h
    · omega
    · have := ih h
      simp only [endOf] at this
      omega

/-- Positions are words of 64 bits, and so is the width; hence the greatest word is no position. -/
def positionLimit : Nat := UInt64.size - 1

/-- The schema with the given names at the given positions and unnamed columns between them. -/
def ofEntries (entries : List (String × Nat)) : Schema :=
  let kept := entries.filter fun (_, index) ↦ index < positionLimit
  let names := kept.foldr (fun (name, index) names ↦ insertName index name names) []
  ⟨names, endOf names, by
    simp only [names]
    induction kept with
    | nil => exact .nil
    | cons entry rest ih => exact pairwise_insertName ih,
    fun _ h ↦ lt_endOf h⟩

/-! ### Looking up -/

/-- The first column with the given name; the empty name is no name. -/
def lookup (schema : Schema) (name : String) : Option Nat :=
  if name.isEmpty then none
  else (schema.names.find? fun entry ↦ entry.2 == name).map Prod.fst

/-- The name of a column, empty for an unnamed one; none past the width. -/
def nameOf (schema : Schema) (index : Nat) : Option String :=
  if index < schema.width then some ((schema.names.lookup index).getD "") else none

end Schema

end ColumnFormula
