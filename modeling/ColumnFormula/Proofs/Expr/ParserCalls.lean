import ColumnFormula.Proofs.Expr.ReaderMoves

/-!
# Several calls of one parser

A parser may be called again after every outcome, and the calls may be of different kinds. No call
leaves a trace other than the tokens it has stepped over: the state behind a call is the state of a
new parser over the tokens from some later cursor on (`ParserCall.exists_stateAfter_eq_start`). That
holds after a failure as well, also after one that comes from deep inside of an expression, so by
induction on the calls it holds behind every sequence of them (`stateAfterCalls_eq_start`), and a
call in the middle of a sequence does what it does on a new parser (`calls_resume_at_cursor`).
-/

set_option autoImplicit false
set_option relaxedAutoImplicit false

namespace ColumnFormula

/-- The tokens from a cursor on. -/
def TokenList.behind (list : TokenList) (cursor : Nat) : TokenList :=
  ⟨list.tokens.drop cursor, list.finish⟩

@[simp] theorem TokenList.behind_zero (list : TokenList) : list.behind 0 = list := rfl

/-- A state that is reached from a cursor stands at this cursor or a later one. -/
theorem ParserState.Reaches.exists_eq_start {list : TokenList} {cursor : Nat} {t : ParserState}
    (hcursor : cursor ≤ list.tokens.length) (h : (start (list.behind cursor)).Reaches t) :
    ∃ next, cursor ≤ next ∧ next ≤ list.tokens.length ∧ t = start (list.behind next) := by
  have hrest : t.rest <:+ list.tokens := h.rest.trans (List.drop_suffix cursor list.tokens)
  have hlength : t.rest.length ≤ (list.tokens.drop cursor).length := h.rest.length_le
  rw [List.length_drop] at hlength
  refine ⟨list.tokens.length - t.rest.length, by omega, Nat.sub_le _ _, ?_⟩
  cases t
  simp only [start, TokenList.behind, ParserState.mk.injEq]
  exact ⟨List.suffix_iff_eq_drop.mp hrest, h.finish, h.nesting⟩

/-- The state that a reader leaves behind when it succeeds and when it fails. -/
def Parse.stateAfter {α : Type} (reader : Parse α) (s : ParserState) : ParserState :=
  match reader s with
  | .ok _ t => t
  | .error _ t => t

theorem Parse.Moves.reaches_stateAfter {α : Type} {faults : ParseFault → Prop} {reader : Parse α}
    (h : Moves faults reader) (s : ParserState) : s.Reaches (reader.stateAfter s) := by
  have hs := h s
  unfold stateAfter
  cases hread : reader s with
  | ok a t =>
    rw [hread] at hs
    exact hs
  | error e t =>
    rw [hread] at hs
    exact hs.1

/-! ### Calls -/

/-- The calls that a parser offers: one expression with whatever may follow it, a bare expression
that spans all tokens, and a statement that does. -/
inductive ParserCall where
  | expression
  | wholeExpression
  | wholeStatement
  deriving DecidableEq

namespace ParserCall

/-- What a call returns when it succeeds. -/
def Tree : ParserCall → Type
  | .expression => Expr Reference
  | .wholeExpression => Expr Reference
  | .wholeStatement => Statement Reference

def reader : (call : ParserCall) → Parse call.Tree
  | .expression => Parse.expression
  | .wholeExpression => Parse.wholeExpression
  | .wholeStatement => Parse.wholeStatement

theorem moves_reader (call : ParserCall) : Parse.Moves Parse.AnyFault call.reader :=
  match call with
  | .expression => Parse.moves_anyExpression
  | .wholeExpression => Parse.moves_wholeExpression
  | .wholeStatement => Parse.moves_wholeStatement

/-- One call on a parser that stands at a cursor, whatever comes of it, leaves the parser at this
cursor or a later one. -/
theorem exists_stateAfter_eq_start (call : ParserCall) {list : TokenList} {cursor : Nat}
    (h : cursor ≤ list.tokens.length) :
    ∃ next, cursor ≤ next ∧ next ≤ list.tokens.length ∧
      call.reader.stateAfter (.start (list.behind cursor)) = .start (list.behind next) :=
  (call.moves_reader.reaches_stateAfter _).exists_eq_start h

end ParserCall

/-- The state behind some calls, each made on the state that the one before it has left. -/
def stateAfterCalls (calls : List ParserCall) (s : ParserState) : ParserState :=
  calls.foldl (fun s call ↦ call.reader.stateAfter s) s

theorem stateAfterCalls_cons (call : ParserCall) (calls : List ParserCall) (s : ParserState) :
    stateAfterCalls (call :: calls) s = stateAfterCalls calls (call.reader.stateAfter s) := rfl

theorem stateAfterCalls_append_singleton (calls : List ParserCall) (call : ParserCall)
    (s : ParserState) :
    stateAfterCalls (calls ++ [call]) s = call.reader.stateAfter (stateAfterCalls calls s) := by
  rw [stateAfterCalls, List.foldl_append]
  rfl

/-- The cursor moves forward over a sequence of calls. -/
theorem exists_stateAfterCalls_eq_start (list : TokenList) (calls : List ParserCall) :
    ∀ {cursor : Nat}, cursor ≤ list.tokens.length →
      ∃ next, cursor ≤ next ∧ next ≤ list.tokens.length ∧
        stateAfterCalls calls (.start (list.behind cursor)) = .start (list.behind next) := by
  induction calls with
  | nil => exact fun h ↦ ⟨_, Nat.le_refl _, h, rfl⟩
  | cons call calls ih =>
    intro cursor h
    obtain ⟨middle, hmiddle, hinside, hcall⟩ := call.exists_stateAfter_eq_start h
    obtain ⟨next, hnext, hend, hcalls⟩ := ih hinside
    refine ⟨next, Nat.le_trans hmiddle hnext, hend, ?_⟩
    rw [stateAfterCalls_cons, hcall, hcalls]

/-- A parser can be called again after every outcome. Behind any sequence of calls, successful or
failing with any error, no level of nesting is open and the parser stands at a cursor inside of the
token list. The next call then returns, and leaves behind, what the same call does on a new parser
over the tokens from this cursor on, and it puts the cursor at the same place or further on, again
with no level of nesting open. -/
theorem calls_resume_at_cursor (list : TokenList) (calls : List ParserCall) (call : ParserCall) :
    ∃ cursor next, cursor ≤ next ∧ next ≤ list.tokens.length ∧
      (stateAfterCalls calls (.start list)).nesting = 0 ∧
      (stateAfterCalls calls (.start list)).rest = list.tokens.drop cursor ∧
      call.reader (stateAfterCalls calls (.start list)) =
        call.reader (.start (list.behind cursor)) ∧
      (stateAfterCalls (calls ++ [call]) (.start list)).nesting = 0 ∧
      (stateAfterCalls (calls ++ [call]) (.start list)).rest = list.tokens.drop next := by
  obtain ⟨cursor, -, hcursor, hcalls⟩ :=
    exists_stateAfterCalls_eq_start list calls (Nat.zero_le _)
  rw [TokenList.behind_zero] at hcalls
  obtain ⟨next, hnext, hinside, hcall⟩ := call.exists_stateAfter_eq_start hcursor
  refine ⟨cursor, next, hnext, hinside, ?_⟩
  rw [stateAfterCalls_append_singleton, hcalls, hcall]
  exact ⟨rfl, rfl, rfl, rfl, rfl⟩

end ColumnFormula
