import ColumnFormula.Proofs.Expr.ParserCalls
import ColumnFormula.Proofs.Expr.ReaderLocality

/-!
# Continuations of a failing token list

A parser that fails has not looked past the token it stopped at. Two token lists agree through a
cursor if they have the same items up to and with the one there, where the end of a list is an item
as well (`TokenList.AgreesThrough`). Every call of a new parser is local
(`ParserCall.localAt_reader`), so a failure is the same on every list that agrees with the given one
through the cursor where it was left, and it points at one of the items they share
(`call_error_of_agreesThrough`): what has failed cannot be mended by what comes later.
-/

set_option autoImplicit false
set_option relaxedAutoImplicit false

namespace ColumnFormula

/-! ### Items of a token list -/

/-- A token with its offset as an item of a list; no token stands for the end. -/
def LocatedToken.item (located : LocatedToken) : Option Token × Nat :=
  (some located.token, located.offset)

/-- The next token of a state or the end, with its offset. -/
def ParserState.item (s : ParserState) : Option Token × Nat := (s.current?, s.position)

namespace TokenList

/-- The tokens with their offsets and, behind them, the end with its offset. -/
def items (list : TokenList) : List (Option Token × Nat) :=
  list.tokens.map LocatedToken.item ++ [(none, list.finish)]

/-- Both lists have the same items up to and with the one at the cursor. -/
def AgreesThrough (cursor : Nat) (list other : TokenList) : Prop :=
  other.items.take (cursor + 1) = list.items.take (cursor + 1)

instance (cursor : Nat) (list other : TokenList) : Decidable (AgreesThrough cursor list other) :=
  inferInstanceAs (Decidable (_ = _))

/-- The first items of a list say which tokens it begins with and what stands behind them. -/
theorem take_items_eq_iff {read : List LocatedToken} {next : Option Token × Nat}
    {tokens : List LocatedToken} {finish : Nat} :
    (items ⟨tokens, finish⟩).take (read.length + 1) = read.map LocatedToken.item ++ [next] ↔
      ∃ rest, tokens = read ++ rest ∧ (ParserState.start ⟨rest, finish⟩).item = next := by
  induction read generalizing tokens with
  | nil => cases tokens <;> simp [items, ParserState.item, LocatedToken.item,
      ParserState.start, ParserState.current?, ParserState.position]
  | cons located read ih =>
    cases tokens with
    | nil => simp [items, LocatedToken.item]
    | cons first tokens =>
      obtain ⟨token, offset⟩ := located
      obtain ⟨firstToken, firstOffset⟩ := first
      have hrest : (items ⟨tokens, finish⟩).take (read.length + 1) =
          read.map LocatedToken.item ++ [next] ↔ _ := ih
      simp only [items, List.map_cons, List.cons_append, List.length_cons, List.take_succ_cons,
        List.cons.injEq, LocatedToken.item, Prod.mk.injEq, Option.some.injEq,
        LocatedToken.mk.injEq] at hrest ⊢
      rw [hrest]
      simp [and_assoc]

theorem take_items_append (read rest : List LocatedToken) (finish : Nat) :
    (items ⟨read ++ rest, finish⟩).take (read.length + 1) =
      read.map LocatedToken.item ++ [(ParserState.start ⟨rest, finish⟩).item] :=
  take_items_eq_iff.mpr ⟨rest, rfl, rfl⟩

end TokenList

/-- The offsets of the items that a state has seen. -/
theorem ParserState.seenOffsets_eq (t : ParserState) (read : List LocatedToken) :
    t.seenOffsets read = (read.map LocatedToken.item ++ [t.item]).map Prod.snd := by
  simp [seenOffsets, item, LocatedToken.item]

/-- The offsets that have been seen are those of the first items of the list. -/
theorem ParserState.exists_index_of_mem_seenOffsets {read rest : List LocatedToken}
    {finish position : Nat} (h : position ∈ (start ⟨rest, finish⟩).seenOffsets read) :
    ∃ index ≤ read.length,
      ((TokenList.items ⟨read ++ rest, finish⟩)[index]?).map Prod.snd = some position := by
  rw [seenOffsets_eq, ← TokenList.take_items_append] at h
  obtain ⟨index, hindex⟩ := List.mem_iff_getElem?.mp h
  rw [List.getElem?_map, List.getElem?_take] at hindex
  split at hindex
  · rename_i hlt
    exact ⟨index, Nat.le_of_lt_succ hlt, hindex⟩
  · cases hindex

theorem TokenList.behind_length_append (read rest : List LocatedToken) (finish : Nat) :
    behind ⟨read ++ rest, finish⟩ read.length = ⟨rest, finish⟩ := by
  rw [behind, List.drop_left]

/-- A new parser that stands before some tokens has a list that begins with them. -/
theorem ParserState.exists_of_start_eq_before {list : TokenList} {t : ParserState}
    {read : List LocatedToken} (h : start list = t.before read) :
    ∃ rest, list = ⟨read ++ rest, list.finish⟩ ∧ t = start ⟨rest, list.finish⟩ := by
  cases list
  cases t
  simp only [start, before, ParserState.mk.injEq] at h
  obtain ⟨rfl, rfl, rfl⟩ := h
  exact ⟨_, rfl, rfl⟩

/-! ### Failing calls -/

theorem ParserCall.localAt_reader (call : ParserCall) (list : TokenList) :
    Parse.LocalAt [] call.reader (.start list) := by
  cases call with
  | expression => exact Parse.local_expression _ _
  | wholeExpression => exact Parse.local_wholeExpression _ _
  | wholeStatement =>
    have hnesting : (ParserState.start list).nesting < maxDepth := Nat.zero_lt_succ _
    exact Parse.localAt_wholeStatement hnesting

/-- A failure depends on the tokens up to the one where the parser stopped, and on nothing behind.
A call that fails on a new parser leaves it at a cursor inside of the list; the error points at an
item up to this one, and on every list that agrees with the given one through the cursor the same
call fails with the same error, at the same cursor. -/
theorem call_error_of_agreesThrough (call : ParserCall) {list : TokenList} {e : ParseError}
    {t : ParserState} (h : call.reader (.start list) = .error e t) :
    ∃ cursor ≤ list.tokens.length, t = .start (list.behind cursor) ∧
      (∃ index ≤ cursor, (list.items[index]?).map Prod.snd = some e.position) ∧
      ∀ other : TokenList, list.AgreesThrough cursor other →
        call.reader (.start other) = .error e (.start (other.behind cursor)) := by
  have hlocal := call.localAt_reader list
  generalize hstart : ParserState.start list = s at h hlocal
  cases hlocal with
  | @ok read u a hread => cases h.symm.trans (hread u (.refl u))
  | @error read u fault hplace hread =>
    cases h.symm.trans (hread u (.refl u))
    obtain ⟨rest, hlist, rfl⟩ := ParserState.exists_of_start_eq_before hstart
    generalize list.finish = finish at *
    subst hlist
    have hseen := hplace.resolve_left List.not_mem_nil
    refine ⟨read.length, by simp, ?_, ParserState.exists_index_of_mem_seenOffsets hseen,
      fun other hother ↦ ?_⟩
    · rw [TokenList.behind_length_append]
    · obtain ⟨otherTokens, otherFinish⟩ := other
      have hitems := TokenList.take_items_append read rest finish
      obtain ⟨behind, rfl, hitem⟩ := TokenList.take_items_eq_iff.mp (hother.trans hitems)
      obtain ⟨hcurrent, hposition⟩ := Prod.mk.inj hitem
      rw [TokenList.behind_length_append]
      exact hread (.start ⟨behind, otherFinish⟩) ⟨hcurrent.symm, hposition.symm, rfl⟩

/-- In `(A B` a closing parenthesis is missed at `B`, and the error points back at the opening one;
a parenthesis behind `B` comes too late. -/
theorem call_error_of_agreesThrough_late_paren :
    let list : TokenList := ⟨[⟨.openParen, 0⟩, ⟨.identifier "A", 1⟩, ⟨.identifier "B", 3⟩], 4⟩
    let other : TokenList := ⟨list.tokens ++ [⟨.closeParen, 4⟩, ⟨.assign, 6⟩, ⟨.nil, 8⟩], 11⟩
    ParserCall.wholeStatement.reader (.start list) =
      .error ⟨.unmatchedParen, 0⟩ (.start (list.behind 2)) ∧
    ParserCall.wholeStatement.reader (.start other) =
      .error ⟨.unmatchedParen, 0⟩ (.start (other.behind 2)) := by
  intro list other
  have hfails : ParserCall.wholeStatement.reader (.start list) =
      .error ⟨.unmatchedParen, 0⟩ (.start (list.behind 2)) := by rfl
  obtain ⟨cursor, hcursor, hstate, -, hother⟩ :=
    call_error_of_agreesThrough .wholeStatement hfails
  have hlength := congrArg (List.length ∘ ParserState.rest) hstate
  have htwo : cursor = 2 := by
    simp only [Function.comp_apply, ParserState.start, TokenList.behind, List.length_drop]
      at hlength
    have hthree : list.tokens.length = 3 := rfl
    omega
  subst htwo
  exact ⟨hfails, hother other (by decide)⟩

end ColumnFormula
