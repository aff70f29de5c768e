import ColumnFormula.Proofs.Expr.Recognition

/-!
# What a reader has seen

A reader of tokens looks at the next token and at nothing behind it; only a word makes it look one
token further, and this word is always stepped over. So what comes of a reading depends on the
tokens that were stepped over and the next one, whatever stands behind, and an error points at one
of these tokens. `Parse.LocalAt` says both of a reader at a state, and it goes from the parts of a
sequence to the sequence (`Parse.LocalAt.bind`). The loops count the tokens that are left, which is
the one thing they know about all of them; since every round of a loop steps over a token the count
makes no difference (`Parse.IsLoopOf.eq_round`), and the property holds of a loop if it holds of one
round (`Parse.IsLoopOf.localAt_wholeLoop`). From there it goes through the levels of operators, the
operands and the statements.
-/

set_option autoImplicit false
set_option relaxedAutoImplicit false

namespace ColumnFormula

/-! ### States with the same next token -/

namespace ParserState

/-- Both states have the same next token, offset included, or both are at the same end, and as many
levels of nesting are open in both. -/
structure Meets (s t : ParserState) : Prop where
  current? : s.current? = t.current?
  position : s.position = t.position
  nesting : s.nesting = t.nesting

theorem Meets.refl (s : ParserState) : s.Meets s := ⟨rfl, rfl, rfl⟩

/-- Tokens in front of both states are the next ones of both. -/
theorem Meets.before {s t : ParserState} (h : s.Meets t) (read : List LocatedToken) :
    (s.before read).Meets (t.before read) := by
  cases read with
  | nil => exact h
  | cons token read => exact ⟨rfl, rfl, h.nesting⟩

theorem Meets.open {s t : ParserState} (h : s.Meets t) :
    Meets { s with nesting := s.nesting + 1 } { t with nesting := t.nesting + 1 } :=
  ⟨h.current?, h.position, congrArg (· + 1) h.nesting⟩

/-- Tokens stepped over with one more level open are the same without it. -/
theorem exists_of_open_eq_before {s t : ParserState} {read : List LocatedToken}
    (h : { s with nesting := s.nesting + 1 } = t.before read) :
    ∃ u : ParserState, s = u.before read ∧ t = { u with nesting := u.nesting + 1 } := by
  cases s
  cases t
  simp only [before, ParserState.mk.injEq] at h
  obtain ⟨rfl, rfl, rfl⟩ := h
  exact ⟨⟨_, _, _⟩, rfl, rfl⟩

theorem Meets.eq_of_rest_eq_nil {s t : ParserState} (h : s.Meets t) (hs : s.rest = []) :
    t = s := by
  have hcurrent : t.current? = none := by
    rw [← h.current?, ParserState.current?, hs]
    rfl
  have hposition := h.position
  rw [ParserState.position, hs, ParserState.position, rest_eq_nil_of_current? hcurrent] at hposition
  cases s
  cases t
  exact congr (congr (congrArg ParserState.mk ((rest_eq_nil_of_current? hcurrent).trans hs.symm))
    hposition.symm) h.nesting.symm

/-- The offsets of some tokens and of the next one of the state behind them. -/
def seenOffsets (t : ParserState) (read : List LocatedToken) : List Nat :=
  read.map LocatedToken.offset ++ [t.position]

theorem position_mem_seenOffsets (t : ParserState) (read : List LocatedToken) :
    (t.before read).position ∈ t.seenOffsets read := by
  cases read <;> exact List.mem_cons_self

theorem length_rest_le_before (t : ParserState) (read : List LocatedToken) :
    t.rest.length ≤ (t.before read).rest.length := by
  simp

theorem length_rest_advance_lt {s : ParserState} {token : Token} (h : s.current? = some token) :
    s.advance.rest.length < s.rest.length := by
  obtain ⟨located, -, hs⟩ := exists_eq_before_of_current? h
  rw [hs]
  simp [advance]

end ParserState

namespace Parse

variable {α β : Type}

/-- At the state the reader steps over some tokens, and from every state in which these tokens are
followed by the same next token the same comes of it. An error points at one of the tokens up to
the next one, or at one of the given places. -/
inductive LocalAt (places : List Nat) (reader : Parse α) : ParserState → Prop
  | ok {read : List LocatedToken} {t : ParserState} (a : α)
      (h : ∀ u, t.Meets u → reader (u.before read) = .ok a u) :
      LocalAt places reader (t.before read)
  | error {read : List LocatedToken} {t : ParserState} (e : ParseError)
      (hplace : e.position ∈ places ∨ e.position ∈ t.seenOffsets read)
      (h : ∀ u, t.Meets u → reader (u.before read) = .error e u) :
      LocalAt places reader (t.before read)

/-- The reader is local at every state, with no places but the tokens it has seen itself. -/
def Local (reader : Parse α) : Prop := ∀ places s, LocalAt places reader s

/-! ### Sequences -/

section Sequences

variable {places : List Nat} {s : ParserState}

theorem LocalAt.length_le {reader : Parse α} (h : LocalAt places reader s) {a : α}
    {t : ParserState} (hread : reader s = .ok a t) : t.rest.length ≤ s.rest.length := by
  cases h with
  | @ok read u b hlocal =>
    cases (hlocal u (.refl u)).symm.trans hread
    exact t.length_rest_le_before read
  | @error read u e hplace hlocal => cases (hlocal u (.refl u)).symm.trans hread

/-- A reader that does what a local one does behind some tokens is local in front of them. -/
theorem LocalAt.behind {reader other : Parse α} {t : ParserState} {front : List LocatedToken}
    (h : LocalAt places reader t)
    (hsame : ∀ u, t.Meets u → other (u.before front) = reader u) :
    LocalAt places other (t.before front) := by
  cases h with
  | @ok read u a hread =>
    rw [← ParserState.before_append]
    refine .ok a fun v hv ↦ ?_
    rw [ParserState.before_append, hsame _ (hv.before read), hread v hv]
  | @error read u e hplace hread =>
    rw [← ParserState.before_append]
    refine .error e (hplace.imp_right fun hmem ↦ ?_) fun v hv ↦ ?_
    · rw [ParserState.seenOffsets, List.map_append, List.append_assoc]
      exact List.mem_append_right _ hmem
    · rw [ParserState.before_append, hsame _ (hv.before read), hread v hv]

/-- A reader that does what a local one does wherever the same tokens are seen is local. How far the
local one reads there is known. -/
theorem LocalAt.congr {reader other : Parse α} (h : LocalAt places reader s)
    (hsame : ∀ (read : List LocatedToken) (t : ParserState), s = t.before read →
      (∀ u, t.Meets u → ∀ a v, reader (u.before read) = .ok a v → v = u) →
      ∀ u, t.Meets u → other (u.before read) = reader (u.before read)) :
    LocalAt places other s := by
  cases h with
  | @ok read t a hread =>
    refine .ok a fun u hu ↦ (hsame read t rfl (fun v hv b w hw ↦ ?_) u hu).trans (hread u hu)
    cases hw.symm.trans (hread v hv)
    rfl
  | @error read t e hplace hread =>
    refine .error e hplace fun u hu ↦
      (hsame read t rfl (fun v hv b w hw ↦ ?_) u hu).trans (hread u hu)
    cases hw.symm.trans (hread v hv)

/-- What the second reader sees lies behind what the first one has stepped over. -/
theorem LocalAt.bind {x : Parse α} {f : α → Parse β} (hx : LocalAt places x s)
    (hf : ∀ a t, x s = .ok a t → LocalAt places (f a) t) : LocalAt places (x >>= f) s := by
  cases hx with
  | @ok read t a hread =>
    exact (hf a t (hread t (.refl t))).behind fun u hu ↦ bind_ok (hread u hu)
  | @error read t e hplace hread =>
    exact .error e hplace fun u hu ↦ bind_error (hread u hu) f

theorem Local.bind {x : Parse α} {f : α → Parse β} (hx : Local x) (hf : ∀ a, Local (f a)) :
    Local (x >>= f) :=
  fun places s ↦ (hx places s).bind fun a t _ ↦ hf a places t

/-- Two continuations that agree on what the first reader passes on may be exchanged. -/
theorem bind_congr_ok {x : Parse α} {f g : α → Parse β}
    (h : ∀ a t, x s = .ok a t → f a t = g a t) : (x >>= f) s = (x >>= g) s := by
  cases hread : x s with
  | ok a t => rw [bind_ok hread, bind_ok hread, h a t hread]
  | error e t => rw [bind_error hread, bind_error hread]

theorem bind_congr_first {x y : Parse α} (h : x s = y s) (f : α → Parse β) :
    (x >>= f) s = (y >>= f) s := by
  cases hread : y s with
  | ok a t => rw [bind_ok (h.trans hread), bind_ok hread]
  | error e t => rw [bind_error (h.trans hread), bind_error hread]

end Sequences

/-! ### Primitive readers -/

section Primitives

variable {places : List Nat} {s : ParserState}

theorem local_pure (a : α) : Local (pure a) :=
  fun places s ↦ @LocalAt.ok _ places _ [] s a fun _ _ ↦ rfl

theorem local_fail (fault : ParseFault) : Local (fail fault : Parse α) := by
  intro places s
  refine @LocalAt.error _ places _ [] s ⟨fault, s.position⟩
    (.inr (s.position_mem_seenOffsets [])) fun u hu ↦ ?_
  rw [ParserState.before_nil, fail_apply, hu.position]

theorem localAt_failAt {position : Nat} (hposition : position ∈ places) (fault : ParseFault) :
    LocalAt places (failAt position fault : Parse α) s :=
  @LocalAt.error _ places _ [] s ⟨fault, position⟩ (.inl hposition) fun _ _ ↦ rfl

theorem local_current? : Local current? := by
  intro places s
  refine @LocalAt.ok _ places _ [] s s.current? fun u hu ↦ ?_
  rw [hu.current?]
  rfl

theorem local_advance : Local advance := by
  intro places s
  cases hcurrent : s.current? with
  | none =>
    have hrest := ParserState.rest_eq_nil_of_current? hcurrent
    refine @LocalAt.ok _ places _ [] s () fun u hu ↦ ?_
    rw [hu.eq_of_rest_eq_nil hrest]
    cases s
    cases hrest
    rfl
  | some token =>
    obtain ⟨located, -, hs⟩ := ParserState.exists_eq_before_of_current? hcurrent
    rw [hs]
    exact .ok () fun _ _ ↦ rfl

theorem LocalAt.current?_bind {f : Option Token → Parse β} (h : LocalAt places (f s.current?) s) :
    LocalAt places (current? >>= f) s := by
  refine (local_current? places s).bind fun next t hread ↦ ?_
  cases hread
  exact h

theorem LocalAt.advance_bind {f : Unit → Parse β} (h : LocalAt places (f ()) s.advance) :
    LocalAt places (advance >>= f) s := by
  refine (local_advance places s).bind fun _ t hread ↦ ?_
  cases hread
  exact h

/-- Where reading begins is the offset of a token that is seen. -/
theorem LocalAt.position_bind {f : Nat → Parse β}
    (h : LocalAt (s.position :: places) (f s.position) s) :
    LocalAt places (position >>= f) s := by
  have hposition : ∀ {read : List LocatedToken} {t u : ParserState}, t.Meets u →
      (position >>= f) (u.before read) = f (t.before read).position (u.before read) := by
    intro read t u hu
    rw [Parse.position_bind, (hu.before read).position]
  cases h with
  | @ok read t a hread => exact .ok a fun u hu ↦ (hposition hu).trans (hread u hu)
  | @error read t e hplace hread =>
    refine .error e ?_ fun u hu ↦ (hposition hu).trans (hread u hu)
    rcases hplace with hplace | hseen
    · rcases List.mem_cons.mp hplace with hstart | hplace
      · exact .inr (hstart ▸ t.position_mem_seenOffsets read)
      · exact .inl hplace
    · exact .inr hseen

/-- A look at the token behind the next one goes no further than the next token of the state that
is reached by stepping over. -/
theorem LocalAt.following?_bind {g : Option Token → Unit → Parse β} {t : ParserState}
    {located : LocatedToken} (h : LocalAt places (g t.current? ()) t) :
    LocalAt places (following? >>= fun next ↦ advance >>= g next) (t.before [located]) := by
  refine h.behind fun u hu ↦ ?_
  rw [Parse.following?_bind, Parse.advance_bind, ParserState.following?_before_cons,
    ParserState.advance_before_cons, ParserState.before_nil, hu.current?]

/-- A nested reader sees what its body sees; the level is open within it only. -/
theorem Local.nested {body : Parse α} (h : Local body) : Local (nested body) := by
  intro places s
  have hbody := h places { s with nesting := s.nesting + 1 }
  generalize hopen : { s with nesting := s.nesting + 1 } = inner at hbody
  cases hbody with
  | @ok read t a hread =>
    obtain ⟨u, rfl, rfl⟩ := ParserState.exists_of_open_eq_before hopen
    exact .ok a fun v hv ↦ nested_ok (hread _ hv.open)
  | @error read t e hplace hread =>
    obtain ⟨u, rfl, rfl⟩ := ParserState.exists_of_open_eq_before hopen
    exact .error e hplace fun v hv ↦ nested_error (hread _ hv.open)

theorem local_bounded (e : Expr Reference) : Local (bounded e) := by
  unfold bounded
  split
  · exact local_fail _
  · exact local_pure e

end Primitives

/-! ### Loops -/

section Loops

variable {γ : Type}

/-- The loop is made of rounds. A round goes on with the loop, if it does, behind the tokens it has
stepped over, so it takes no notice of what the loop would do elsewhere. -/
structure IsLoopOf (loop : Nat → γ → Parse α) (round : (γ → Parse α) → γ → Parse α) : Prop where
  succ : ∀ count c, loop (count + 1) c = round (loop count) c
  at_end : ∀ c s, s.rest = [] → loop 0 c s = round (loop 0) c s
  congr : ∀ {next other : γ → Parse α} {c s},
    (∀ d t, t.rest.length < s.rest.length → next d t = other d t) → round next c s = round other c s

/-- The loop with as many rounds as there are tokens left. -/
def wholeLoop (loop : Nat → γ → Parse α) (c : γ) : Parse α := do loop (← remaining) c

namespace IsLoopOf

variable {loop : Nat → γ → Parse α} {round : (γ → Parse α) → γ → Parse α}

theorem exists_eq_round (h : IsLoopOf loop round) {count : Nat} {s : ParserState}
    (hcount : s.rest.length ≤ count) (c : γ) :
    ∃ fewer, s.rest.length ≤ fewer + 1 ∧ loop count c s = round (loop fewer) c s := by
  cases count with
  | zero =>
    have hrest : s.rest = [] := List.length_eq_zero_iff.mp (Nat.le_zero.mp hcount)
    exact ⟨0, by simp [hrest], h.at_end c s hrest⟩
  | succ count => exact ⟨count, hcount, by rw [h.succ]⟩

/-- It makes no difference how many rounds are allowed, as long as each token may have one. -/
theorem eq_of_le (h : IsLoopOf loop round) {m n : Nat} {s : ParserState}
    (hm : s.rest.length ≤ m) (hn : s.rest.length ≤ n) (c : γ) : loop m c s = loop n c s := by
  induction hlength : s.rest.length using Nat.strongRecOn generalizing m n s c with
  | ind length ih =>
    subst hlength
    obtain ⟨i, hi, hfirst⟩ := h.exists_eq_round hm c
    obtain ⟨j, hj, hsecond⟩ := h.exists_eq_round hn c
    rw [hfirst, hsecond]
    exact h.congr fun d t ht ↦ ih _ ht (by omega) (by omega) d rfl

/-- The whole loop is one round that goes on with the whole loop. -/
theorem eq_round (h : IsLoopOf loop round) (c : γ) :
    wholeLoop loop c = round (wholeLoop loop) c := by
  funext s
  obtain ⟨fewer, hfewer, hloop⟩ := h.exists_eq_round (Nat.le_refl s.rest.length) c
  rw [wholeLoop, remaining_bind, hloop]
  exact h.congr fun d t ht ↦ h.eq_of_le (by omega) (Nat.le_refl _) d

/-- What holds of one round holds of the loop, by induction on the tokens that are left. -/
theorem localAt_wholeLoop (h : IsLoopOf loop round) {places : List Nat}
    (hround : ∀ (next : γ → Parse α) c s,
      (∀ d t, t.rest.length < s.rest.length → LocalAt places (next d) t) →
        LocalAt places (round next c) s) (c : γ) (s : ParserState) :
    LocalAt places (wholeLoop loop c) s := by
  induction hlength : s.rest.length using Nat.strongRecOn generalizing s c with
  | ind length ih =>
    subst hlength
    rw [h.eq_round]
    exact hround _ c s fun d t ht ↦ ih _ ht d t rfl

end IsLoopOf

end Loops

/-! ### Levels of operators -/

section Levels

variable {operand : Parse (Expr Reference)} (hoperand : Local operand)

/-- One operator with its right operand, or none. -/
def leftAssociativeRound (operator? : Token → Option BinaryOp) (operand : Parse (Expr Reference))
    (next : Expr Reference → Parse (Expr Reference)) (left : Expr Reference) :
    Parse (Expr Reference) := do
  match (← current?).bind operator? with
  | none => pure left
  | some op =>
    advance
    let right ← operand
    let node ← bounded (.binary op left right)
    next node

/-- One comparison with its right operand and the ones behind it, or none. -/
def comparisonRound (operand : Parse (Expr Reference))
    (next : Unit → Parse (List (Comparison × Expr Reference))) (_ : Unit) :
    Parse (List (Comparison × Expr Reference)) := do
  match (← current?).bind comparison? with
  | none => pure []
  | some op =>
    advance
    let right ← operand
    let links ← next ()
    pure ((op, right) :: links)

include hoperand

theorem length_lt_of_operand {s t : ParserState} {token : Token} {e : Expr Reference}
    (hcurrent : s.current? = some token) (hread : operand s.advance = .ok e t) :
    t.rest.length < s.rest.length :=
  Nat.lt_of_le_of_lt ((hoperand [] s.advance).length_le hread)
    (ParserState.length_rest_advance_lt hcurrent)

theorem isLoopOf_leftAssociative (operator? : Token → Option BinaryOp) :
    IsLoopOf (leftAssociativeLoop operator? operand) (leftAssociativeRound operator? operand) where
  succ _ _ := rfl
  at_end c s hs := by
    have hcurrent : s.current? = none := by simp [ParserState.current?, hs]
    rw [leftAssociativeRound, current?_bind, hcurrent]
    rfl
  congr {next other c s} h := by
    rw [leftAssociativeRound, leftAssociativeRound, current?_bind, current?_bind]
    cases hop : s.current?.bind operator? with
    | none => rfl
    | some op =>
      obtain ⟨token, hcurrent, -⟩ := Option.bind_eq_some_iff.mp hop
      simp only [advance_bind]
      refine bind_congr_ok fun right t hright ↦ bind_congr_ok fun node u hnode ↦ ?_
      obtain ⟨-, rfl, -⟩ := eq_of_bounded_eq_ok hnode
      exact h node u (length_lt_of_operand hoperand hcurrent hright)

theorem local_leftAssociative (operator? : Token → Option BinaryOp) :
    Local (leftAssociative operator? operand) := by
  refine hoperand.bind fun first places ↦ ?_
  refine (isLoopOf_leftAssociative hoperand operator?).localAt_wholeLoop ?_ first
  intro next left s hnext
  refine LocalAt.current?_bind ?_
  split
  · exact local_pure left places s
  · rename_i op hop
    obtain ⟨token, hcurrent, -⟩ := Option.bind_eq_some_iff.mp hop
    refine LocalAt.advance_bind ((hoperand places s.advance).bind fun right t hright ↦ ?_)
    refine (local_bounded _ places t).bind fun node u hnode ↦ ?_
    obtain ⟨-, rfl, -⟩ := eq_of_bounded_eq_ok hnode
    exact hnext node u (length_lt_of_operand hoperand hcurrent hright)

theorem isLoopOf_comparisonLinks :
    IsLoopOf (fun count (_ : Unit) ↦ comparisonLinks operand count) (comparisonRound operand) where
  succ _ _ := rfl
  at_end c s hs := by
    have hcurrent : s.current? = none := by simp [ParserState.current?, hs]
    rw [comparisonRound, current?_bind, hcurrent]
    rfl
  congr {next other c s} h := by
    rw [comparisonRound, comparisonRound, current?_bind, current?_bind]
    cases hop : s.current?.bind comparison? with
    | none => rfl
    | some op =>
      obtain ⟨token, hcurrent, -⟩ := Option.bind_eq_some_iff.mp hop
      simp only [advance_bind]
      refine bind_congr_ok fun right t hright ↦ ?_
      exact bind_congr_first (h () t (length_lt_of_operand hoperand hcurrent hright)) _

theorem local_comparisons : Local (comparisons operand) := by
  have hlinks : Local (wholeLoop (fun count (_ : Unit) ↦ comparisonLinks operand count) ()) := by
    intro places
    refine (isLoopOf_comparisonLinks hoperand).localAt_wholeLoop ?_ ()
    intro next c s hnext
    refine LocalAt.current?_bind ?_
    split
    · exact local_pure [] places s
    · rename_i op hop
      obtain ⟨token, hcurrent, -⟩ := Option.bind_eq_some_iff.mp hop
      refine LocalAt.advance_bind ((hoperand places s.advance).bind fun right t hright ↦ ?_)
      refine (hnext () t (length_lt_of_operand hoperand hcurrent hright)).bind fun links u _ ↦ ?_
      exact local_pure _ places u
  refine hoperand.bind fun first ↦ hlinks.bind fun links ↦ ?_
  split
  · exact local_pure first
  · exact local_bounded _
  · exact local_bounded _

theorem local_expressionOver : Local (expressionOver operand) := by
  have hmultiplicative := local_leftAssociative hoperand multiplicative?
  have hadditive := local_leftAssociative hmultiplicative additive?
  have hconcat := local_leftAssociative hadditive concat?
  have hcomparison := local_comparisons hconcat
  have hand := local_leftAssociative hcomparison and?
  exact local_leftAssociative hand or?

end Levels

/-! ### Operands -/

section Operands

variable {levels : Nat} {expression : Parse (Expr Reference)} (hexpression : Local expression)
  (hsound : Sound levels expression (.level .or))

/-- One argument with what is behind its comma, or the last one with the closing parenthesis. -/
def argumentsRound (expression : Parse (Expr Reference)) (openPosition : Nat)
    (next : Unit → Parse (List (Expr Reference))) (_ : Unit) : Parse (List (Expr Reference)) := do
  let first ← current?
  if first = some .comma ∨ first = some .closeParen then fail .emptyArgument
  else
    let arg ← expression
    match ← current? with
    | some .comma =>
      advance
      let args ← next ()
      pure (arg :: args)
    | some .closeParen =>
      advance
      pure [arg]
    | none => failAt openPosition .unmatchedParen
    | some token => fail (.unexpectedToken .argumentEnd (some token))

include hsound in
/-- An expression that is read has a token, since it is derived by the tokens it took. -/
theorem length_lt_of_sound {s t : ParserState} {e : Expr Reference}
    (h : expression s = .ok e t) : t.rest.length < s.rest.length := by
  obtain ⟨read, n, rfl, hderives, -⟩ := hsound h
  obtain ⟨token, rest, hread, -⟩ := hderives.exists_startsOperand trivial
  have hlength := congrArg List.length hread
  simp only [List.length_map, List.length_cons, ParserState.rest_before,
    List.length_append] at hlength ⊢
  omega

include hsound in
theorem isLoopOf_arguments (openPosition : Nat) :
    IsLoopOf (fun count (_ : Unit) ↦ arguments expression openPosition count)
      (argumentsRound expression openPosition) where
  succ _ _ := rfl
  at_end c s hs := by
    have hcurrent : s.current? = none := by simp [ParserState.current?, hs]
    rw [argumentsRound, current?_bind, hcurrent, if_neg (by simp), arguments]
    cases hread : expression s with
    | ok e t =>
      have hlength := length_lt_of_sound hsound hread
      rw [hs] at hlength
      exact absurd hlength (Nat.not_lt_zero _)
    | error e t => rw [bind_error hread, bind_error hread]
  congr {next other c s} h := by
    rw [argumentsRound, argumentsRound, current?_bind, current?_bind]
    split
    · rfl
    · refine bind_congr_ok fun arg t harg ↦ ?_
      have hlength := length_lt_of_sound hsound harg
      rw [current?_bind, current?_bind]
      cases hnext : t.current? with
      | none => rfl
      | some token =>
        cases token with
        | comma =>
          simp only [advance_bind]
          have hshort := ParserState.length_rest_advance_lt hnext
          exact bind_congr_first (h () t.advance (Nat.lt_trans hshort hlength)) _
        | _ => rfl

include hexpression hsound

theorem localAt_arguments {places : List Nat} {openPosition : Nat}
    (hopen : openPosition ∈ places) (s : ParserState) :
    LocalAt places (wholeLoop (fun count (_ : Unit) ↦ arguments expression openPosition count) ())
      s := by
  refine (isLoopOf_arguments hsound openPosition).localAt_wholeLoop ?_ () s
  intro next c s hnext
  refine LocalAt.current?_bind ?_
  split
  · exact local_fail _ places s
  · refine (hexpression places s).bind fun arg t harg ↦ LocalAt.current?_bind ?_
    have hlength := length_lt_of_sound hsound harg
    split
    · rename_i hcomma
      have hshort := ParserState.length_rest_advance_lt hcomma
      have hrest := hnext () t.advance (Nat.lt_trans hshort hlength)
      exact LocalAt.advance_bind (hrest.bind fun args u _ ↦ local_pure _ places u)
    · exact LocalAt.advance_bind (local_pure _ places _)
    · exact localAt_failAt hopen _
    · exact local_fail _ places t

theorem local_call (name : String) : Local (call expression name) := by
  intro places s
  refine LocalAt.position_bind (LocalAt.advance_bind (LocalAt.current?_bind ?_))
  split
  · exact LocalAt.advance_bind (local_bounded _ _ _)
  · refine (localAt_arguments hexpression hsound List.mem_cons_self _).bind fun args t _ ↦ ?_
    exact local_bounded _ _ t

/-- A word is stepped over whether a parenthesis follows it or not. -/
theorem local_primary : Local (primary expression) := by
  intro places s
  have hsingle : ∀ e : Expr Reference, Local (do advance; pure e) :=
    fun e ↦ local_advance.bind fun _ ↦ local_pure e
  refine LocalAt.position_bind (LocalAt.current?_bind ?_)
  split
  · exact hsingle _ _ s
  · exact hsingle _ _ s
  · exact hsingle _ _ s
  · exact hsingle _ _ s
  · rename_i name hname
    obtain ⟨located, -, hs⟩ := ParserState.exists_eq_before_of_current? hname
    rw [hs]
    refine LocalAt.following?_bind ?_
    split
    · exact local_call hexpression hsound name _ _
    · exact local_pure _ _ _
  · exact hsingle _ _ s
  · exact hsingle _ _ s
  · refine LocalAt.advance_bind ((hexpression _ _).bind fun e t _ ↦ LocalAt.current?_bind ?_)
    split
    · exact hsingle e _ t
    · exact localAt_failAt List.mem_cons_self _
  · exact localAt_failAt List.mem_cons_self _

end Operands

/-- The knot: what is read inside a level of nesting has one level less. -/
theorem local_unary (levels : Nat) : Local (unary levels) := by
  induction levels with
  | zero => exact local_fail _
  | succ levels ih =>
    refine Local.nested (local_current?.bind fun next ↦ ?_)
    split
    · exact local_advance.bind fun _ ↦ ih.bind fun operand ↦ local_bounded _
    · exact local_primary (local_expressionOver ih) (sound_expressionOver (sound_unary levels))

/-! ### Expressions and statements -/

/-- The levels that are left are the same wherever the same tokens are read. -/
theorem local_expression : Local expression := by
  intro places s
  refine (local_expressionOver (local_unary (maxDepth - s.nesting)) places s).congr ?_
  rintro read t rfl - u hu
  have hnesting : u.nesting = t.nesting := hu.nesting.symm
  show expressionOver (unary (maxDepth - u.nesting)) (u.before read) = _
  rw [hnesting]
  rfl

theorem local_atEnd : Local atEnd := by
  refine local_current?.bind fun next ↦ ?_
  split
  · exact local_pure ()
  · exact local_fail _
  · exact local_fail _

theorem local_wholeExpression : Local wholeExpression := by
  refine local_current?.bind fun next ↦ ?_
  split
  · exact local_fail _
  · exact local_fail _
  · refine local_expression.bind fun e ↦ local_current?.bind fun behind ↦ ?_
    split
    · exact local_fail _
    · exact local_atEnd.bind fun _ ↦ local_pure e

theorem local_expect (token : Token) : Local (expect token) := by
  refine local_current?.bind fun found ↦ ?_
  split
  · exact local_advance
  · exact local_fail _

theorem local_newColumn : Local newColumn := by
  refine local_advance.bind fun _ ↦ (local_expect _).bind fun _ ↦ local_current?.bind fun next ↦ ?_
  split
  · exact local_advance.bind fun _ ↦ (local_expect _).bind fun _ ↦ (local_expect _).bind fun _ ↦
      local_expression.bind fun value ↦ local_pure _
  · exact local_fail _

/-- What is read when the statement is a bare expression. -/
def bareExpression : Parse (Statement Reference) := do
  let e ← expression
  if (← current?) = some .assign then fail .invalidAssignmentTarget
  else pure (.expression e)

theorem local_bareExpression : Local bareExpression := by
  refine local_expression.bind fun e ↦ local_current?.bind fun behind ↦ ?_
  split
  · exact local_fail _
  · exact local_pure _

theorem operand?_of_reference? {token : Token} {target : Reference}
    (h : reference? token = some target) : token.operand? = some (.reference target) := by
  unfold reference? at h
  split at h <;> cases h <;> rfl

/-- A reference that is all there is left is read as an expression. -/
theorem bareExpression_reference {located : LocatedToken} {target : Reference} {t : ParserState}
    (htarget : reference? located.token = some target) (hend : t.current? = none)
    (hnesting : t.nesting < maxDepth) :
    bareExpression (t.before [located]) = .ok (.expression (.reference target)) t := by
  have hoperand := operand?_of_reference? htarget
  have hderives : Derives (.level .or (.reference target)) [located.token] 0 :=
    .or_of_primary (.single hoperand)
  have hstops : StopsAt 0 t.current? := by
    rw [hend]
    exact stopsAt_none 0
  have hread : expression (t.before [located]) = .ok (.reference target) t :=
    complete_expression hderives (by omega) (Token.depth_le_of_operand? hoperand) hstops
  rw [bareExpression, bind_ok hread, current?_bind, hend]
  rfl

/-- A bare expression that begins with a reference does not stop in front of it: it does not even
where nothing follows. -/
theorem exists_meets_bareExpression {t : ParserState} {token : Token} {target : Reference}
    (hcurrent : t.current? = some token) (htarget : reference? token = some target)
    (hnesting : t.nesting < maxDepth) :
    ∃ u v : ParserState, t.Meets u ∧ v ≠ u ∧
      bareExpression u = .ok (.expression (.reference target)) v := by
  obtain ⟨located, rfl, ht⟩ := ParserState.exists_eq_before_of_current? hcurrent
  let v : ParserState := ⟨[], t.finish, t.nesting⟩
  refine ⟨v.before [located], v, ?_, ?_, bareExpression_reference htarget rfl hnesting⟩
  · rw [ht]
    exact ⟨rfl, rfl, rfl⟩
  · intro hv
    cases congrArg ParserState.rest hv

theorem assignmentTarget?_of_reference? {s : ParserState} {token : Token}
    (hcurrent : s.current? = some token) (htarget : reference? token = none) :
    assignmentTarget? s = none := by
  rw [assignmentTarget?, hcurrent, Option.bind_some, htarget, ite_self]

theorem assignmentTarget?_before {t u : ParserState} (h : t.Meets u) {read : List LocatedToken}
    (hread : read ≠ []) :
    assignmentTarget? (u.before read) = assignmentTarget? (t.before read) := by
  obtain ⟨located, read, rfl⟩ := List.exists_cons_of_ne_nil hread
  rw [assignmentTarget?, assignmentTarget?, ParserState.following?_before_cons,
    ParserState.following?_before_cons, (h.before read).current?]
  rfl

/-- A statement looks at two tokens before it reads on. Either it steps over both, or only the first
one matters, or an expression follows that steps over the first one. -/
theorem localAt_statement {places : List Nat} {s : ParserState} (hnesting : s.nesting < maxDepth) :
    LocalAt places statement s := by
  cases htarget : assignmentTarget? s with
  | some target =>
    obtain ⟨column, sign, hcolumn, hsign, hs⟩ := exists_of_assignmentTarget? htarget
    have hvalue : Local (do
        let value ← expression
        pure (Statement.assign target value)) :=
      local_expression.bind fun value ↦ local_pure _
    rw [hs]
    refine (hvalue places _).behind fun u _ ↦ statement_of_target ?_
    simp [assignmentTarget?, hsign, hcolumn]
  | none =>
    cases hcurrent : s.current? with
    | none =>
      refine (local_fail .emptyStatement places s).congr ?_
      rintro read t rfl - u hu
      exact statement_of_none (by rw [← (hu.before read).current?, hcurrent])
    | some token =>
      have hsame : ∀ {read : List LocatedToken} {t u : ParserState}, s = t.before read →
          t.Meets u → (u.before read).current? = some token := by
        rintro read t u rfl hu
        rw [← (hu.before read).current?, hcurrent]
      by_cases hnew : token = .new
      · subst hnew
        refine (local_newColumn places s).congr fun read t hs _ u hu ↦ ?_
        exact statement_of_new (assignmentTarget?_of_reference? (hsame hs hu) rfl) (hsame hs hu)
      · refine (local_bareExpression places s).congr fun read t hs hstop u hu ↦ ?_
        refine statement_of_current? ?_ (hsame hs hu) hnew
        cases hreference : reference? token with
        | none => exact assignmentTarget?_of_reference? (hsame hs hu) hreference
        | some target =>
          have hread : read ≠ [] := by
            rintro rfl
            obtain rfl := hs
            obtain ⟨v, w, hv, hne, hbare⟩ :=
              exists_meets_bareExpression hcurrent hreference hnesting
            exact hne (hstop v hv _ w hbare)
          rw [assignmentTarget?_before hu hread, ← hs, htarget]

theorem localAt_wholeStatement {places : List Nat} {s : ParserState}
    (hnesting : s.nesting < maxDepth) : LocalAt places wholeStatement s :=
  (localAt_statement hnesting).bind fun result t _ ↦
    (local_atEnd.bind fun _ ↦ local_pure result) places t

end Parse

end ColumnFormula
