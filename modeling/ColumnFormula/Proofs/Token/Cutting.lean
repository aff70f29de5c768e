import ColumnFormula.Token.Lexer

/-!
# Cutting a text into tokens

The tokens of a text as a relation between the text and where its tokens stand. `Cut` takes a text
apart into blanks, the characters of a token, blanks, and so on, with the offset of every token and
of the end, and so the offsets increase up to the end (`Cut.pairwise_offsets`). A text is accepted,
with exactly these tokens, as soon as one cut of it is known (`tokenize_of_cut`); the induction
follows the cut, and each step is one call of `TextCursor.next`.
-/

set_option autoImplicit false
set_option relaxedAutoImplicit false

namespace ColumnFormula

/-- Characters that are all blank. -/
def Blank (cs : List Char) : Prop := ∀ c ∈ cs, isBlank c = true

theorem blank_nil : Blank [] := List.forall_mem_nil _

/-- A text from an offset on, its tokens and the offset of its end. A token ends where `readToken`
stops. -/
inductive Cut : Nat → List Char → List LocatedToken → Nat → Prop
  | finish {offset : Nat} {gap : List Char} (hgap : Blank gap) :
      Cut offset gap [] (offset + gap.length)
  | token {offset finish : Nat} {gap tail rest : List Char} {c : Char} {token : Token}
      {tokens : List LocatedToken} (hgap : Blank gap) (hc : isBlank c = false)
      (hread : readToken c (tail ++ rest) = ⟨.ok token, (c :: tail).length⟩)
      (hrest : Cut (offset + gap.length + (c :: tail).length) rest tokens finish) :
      Cut offset (gap ++ (c :: tail ++ rest)) (⟨token, offset + gap.length⟩ :: tokens) finish

theorem Cut.offset_le {offset finish : Nat} {cs : List Char} {tokens : List LocatedToken}
    (h : Cut offset cs tokens finish) : ∀ located ∈ tokens, offset ≤ located.offset := by
  induction h with
  | finish hgap => simp
  | token hgap hc hread _ ih =>
    intro located hlocated
    rcases List.mem_cons.mp hlocated with rfl | hlocated
    · exact Nat.le_add_right _ _
    · have hle := ih located hlocated
      omega

/-- A cut goes to the end of the text. -/
theorem Cut.finish_eq {offset finish : Nat} {cs : List Char} {tokens : List LocatedToken}
    (h : Cut offset cs tokens finish) : finish = offset + cs.length := by
  induction h with
  | finish hgap => rfl
  | token hgap hc hread _ ih =>
    rw [ih]
    simp only [List.length_append]
    omega

/-- Every token begins behind the one before it, and the last one in front of the end. -/
theorem Cut.pairwise_offsets {offset finish : Nat} {cs : List Char} {tokens : List LocatedToken}
    (h : Cut offset cs tokens finish) :
    (tokens.map LocatedToken.offset ++ [finish]).Pairwise (· < ·) := by
  induction h with
  | finish hgap => exact List.pairwise_singleton _ _
  | @token offset finish gap tail rest c token tokens hgap hc hread hrest ih =>
    refine List.pairwise_cons.mpr ⟨fun later hlater ↦ ?_, ih⟩
    have hpos : 0 < (c :: tail).length := Nat.zero_lt_succ _
    rcases List.mem_append.mp hlater with hlater | hlater
    · obtain ⟨located, hlocated, rfl⟩ := List.mem_map.mp hlater
      have hle := hrest.offset_le located hlocated
      dsimp only
      omega
    · obtain rfl := List.mem_singleton.mp hlater
      have hfinish := hrest.finish_eq
      dsimp only
      omega

namespace TextCursor

theorem skipBlanks_append {gap : List Char} (hgap : Blank gap) (cs : List Char)
    (hcs : ∀ c ∈ cs.head?, isBlank c = false) (offset : Nat) :
    skipBlanks ⟨gap ++ cs, offset⟩ = ⟨cs, offset + gap.length⟩ := by
  have htake : (gap ++ cs).takeWhile isBlank = gap := by
    rw [List.takeWhile_append_of_pos hgap]
    cases cs with
    | nil => simp
    | cons c cs => simp [hcs c rfl]
  simp [skipBlanks, advance, htake]

theorem next_blank {gap : List Char} (hgap : Blank gap) (offset : Nat) :
    next ⟨gap, offset⟩ = (.ok none, ⟨[], offset + gap.length⟩) := by
  have hskip := skipBlanks_append hgap [] (by simp) offset
  rw [List.append_nil] at hskip
  simp [next, hskip]

theorem next_token {gap tail rest : List Char} {c : Char} {token : Token} (hgap : Blank gap)
    (hc : isBlank c = false)
    (hread : readToken c (tail ++ rest) = ⟨.ok token, (c :: tail).length⟩) (offset : Nat) :
    next ⟨gap ++ (c :: tail ++ rest), offset⟩ =
      (.ok (some ⟨token, offset + gap.length⟩),
        ⟨rest, offset + gap.length + (c :: tail).length⟩) := by
  have hskip := skipBlanks_append hgap (c :: tail ++ rest) (by simpa using hc) offset
  unfold next
  rw [hskip]
  simp [hread, advance]

/-- A cut of a text is what tokenizing finds. -/
theorem tokens_of_cut {cs : List Char} {offset finish : Nat} {tokens : List LocatedToken}
    (h : Cut offset cs tokens finish) : TextCursor.tokens ⟨cs, offset⟩ = .ok ⟨tokens, finish⟩ := by
  induction h with
  | @finish offset gap hgap =>
    rw [TextCursor.tokens]
    split <;> rename_i hnext <;> rw [next_blank hgap] at hnext <;> cases hnext
    rfl
  | @token offset finish gap tail rest c token tokens hgap hc hread _ ih =>
    rw [TextCursor.tokens]
    split <;> rename_i hnext <;> rw [next_token hgap hc hread] at hnext <;> cases hnext
    rw [ih]
    rfl

end TextCursor

/-- The tokens of a text of which a cut is known. -/
theorem tokenize_of_cut {cs : List Char} {finish : Nat} {tokens : List LocatedToken}
    (h : Cut 0 cs tokens finish) : tokenize (String.ofList cs) = .ok ⟨tokens, finish⟩ := by
  rw [tokenize, String.toList_ofList]
  exact TextCursor.tokens_of_cut h

end ColumnFormula
