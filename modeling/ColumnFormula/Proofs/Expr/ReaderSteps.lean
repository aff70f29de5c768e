import ColumnFormula.Proofs.Expr.Grammar
import ColumnFormula.Proofs.Expr.Height

/-!
# Steps of a token reader

How a reader of tokens moves through its state, in the form that the later modules cite: a sequence
of two readers succeeds exactly when both do (`Parse.bind_ok`, `Parse.exists_of_bind_eq_ok`), the
primitive readers look at the state or drop one token, and `Parse.bounded` and `Parse.nested` are
the two places where the limits are kept. `ParserState.before` puts tokens back in front of a
state: that a reader goes from `t.before read` to `t` says that it read exactly these tokens.
-/

set_option autoImplicit false
set_option relaxedAutoImplicit false

namespace ColumnFormula

/-! ### Tokens in front of a state -/

namespace ParserState

/-- The state with some tokens still in front of it. -/
def before (t : ParserState) (read : List LocatedToken) : ParserState :=
  { t with rest := read ++ t.rest }

@[simp] theorem before_nil (t : ParserState) : t.before [] = t := rfl

theorem before_append (t : ParserState) (first second : List LocatedToken) :
    t.before (first ++ second) = (t.before second).before first := by
  simp [before]

theorem before_cons (t : ParserState) (token : LocatedToken) (read : List LocatedToken) :
    t.before (token :: read) = (t.before read).before [token] := rfl

theorem eq_before_cons {s t u : ParserState} {token : LocatedToken} {read : List LocatedToken}
    (hs : s = u.before [token]) (hu : u = t.before read) : s = t.before (token :: read) := by
  rw [hs, hu, ← before_cons]

@[simp] theorem rest_before (t : ParserState) (read : List LocatedToken) :
    (t.before read).rest = read ++ t.rest := rfl

@[simp] theorem current?_before_cons (t : ParserState) (token : LocatedToken)
    (read : List LocatedToken) : (t.before (token :: read)).current? = some token.token := rfl

@[simp] theorem advance_before_cons (t : ParserState) (token : LocatedToken)
    (read : List LocatedToken) : (t.before (token :: read)).advance = t.before read := rfl

@[simp] theorem following?_before_cons (t : ParserState) (token : LocatedToken)
    (read : List LocatedToken) :
    (t.before (token :: read)).following? = (t.before read).current? := rfl

/-- A state with a next token stands before that token. -/
theorem exists_eq_before_of_current? {s : ParserState} {token : Token}
    (h : s.current? = some token) :
    ∃ located : LocatedToken, located.token = token ∧ s = s.advance.before [located] := by
  cases s with
  | mk rest finish nesting =>
    cases rest with
    | nil => simp [current?] at h
    | cons located rest => exact ⟨located, by simpa [current?] using h, rfl⟩

theorem rest_eq_nil_of_current? {s : ParserState} (h : s.current? = none) : s.rest = [] := by
  simpa [current?] using h

end ParserState

/-- A literal or a reference is a leaf. -/
theorem Token.depth_le_of_operand? {token : Token} {e : Expr Reference}
    (h : token.operand? = some e) : e.depth ≤ maxDepth := by
  have hleaf : e.height = 1 := by
    unfold Token.operand? at h
    split at h <;> cases h <;> rfl
  rw [Expr.depth_eq_height, hleaf]
  decide

namespace Parse

variable {α β : Type}

/-! ### Sequences -/

theorem bind_ok {x : Parse α} {f : α → Parse β} {s t : ParserState} {a : α} (h : x s = .ok a t) :
    (x >>= f) s = f a t := by
  show EStateM.bind x f s = _
  rw [EStateM.bind, h]

theorem bind_error {x : Parse α} {s t : ParserState} {e : ParseError} (h : x s = .error e t)
    (f : α → Parse β) : (x >>= f) s = .error e t := by
  show EStateM.bind x f s = _
  rw [EStateM.bind, h]

theorem exists_of_bind_eq_ok {x : Parse α} {f : α → Parse β} {s t : ParserState} {b : β}
    (h : (x >>= f) s = .ok b t) : ∃ a u, x s = .ok a u ∧ f a u = .ok b t := by
  have hbind : EStateM.bind x f s = .ok b t := h
  unfold EStateM.bind at hbind
  split at hbind
  · exact ⟨_, _, by assumption, hbind⟩
  · cases hbind

@[simp] theorem pure_apply (a : α) (s : ParserState) : (pure a : Parse α) s = .ok a s := rfl

@[simp] theorem get_bind (f : ParserState → Parse β) (s : ParserState) :
    (get >>= f) s = f s s := rfl

@[simp] theorem current?_bind (f : Option Token → Parse β) (s : ParserState) :
    (current? >>= f) s = f s.current? s := rfl

@[simp] theorem following?_bind (f : Option Token → Parse β) (s : ParserState) :
    (following? >>= f) s = f s.following? s := rfl

@[simp] theorem position_bind (f : Nat → Parse β) (s : ParserState) :
    (position >>= f) s = f s.position s := rfl

@[simp] theorem remaining_bind (f : Nat → Parse β) (s : ParserState) :
    (remaining >>= f) s = f s.rest.length s := rfl

@[simp] theorem advance_bind (f : Unit → Parse β) (s : ParserState) :
    (advance >>= f) s = f () s.advance := rfl

@[simp] theorem fail_apply (fault : ParseFault) (s : ParserState) :
    (fail fault : Parse α) s = .error ⟨fault, s.position⟩ s := rfl

/-! ### Given tokens -/

theorem expect_bind {token : Token} {s : ParserState} (h : s.current? = some token)
    (f : Unit → Parse β) : (expect token >>= f) s = f () s.advance := by
  have hexpect : expect token s = .ok () s.advance := by
    rw [expect, current?_bind, if_pos h]
    rfl
  rw [bind_ok hexpect]

theorem exists_of_expect_bind_eq_ok {token : Token} {f : Unit → Parse β} {s t : ParserState}
    {b : β} (h : (expect token >>= f) s = .ok b t) :
    s.current? = some token ∧ f () s.advance = .ok b t := by
  obtain ⟨⟨⟩, u, hexpect, hbehind⟩ := exists_of_bind_eq_ok h
  rw [expect, current?_bind] at hexpect
  split at hexpect
  · rename_i hcurrent
    cases hexpect
    exact ⟨hcurrent, hbehind⟩
  · rw [fail_apply] at hexpect
    cases hexpect

/-! ### Limits -/

theorem bounded_ok {e : Expr Reference} (h : e.depth ≤ maxDepth) (s : ParserState) :
    bounded e s = .ok e s := by
  rw [bounded, if_neg (Nat.not_lt.mpr h)]
  rfl

theorem eq_of_bounded_eq_ok {e f : Expr Reference} {s t : ParserState}
    (h : bounded e s = .ok f t) : f = e ∧ t = s ∧ e.depth ≤ maxDepth := by
  unfold bounded at h
  split at h
  · cases h
  · rename_i hdepth
    cases h
    exact ⟨rfl, rfl, Nat.le_of_not_lt hdepth⟩

/-- A nested reader that reads tokens with one more level open reads the same tokens and closes the
level again. -/
theorem nested_ok {body : Parse α} {t : ParserState} {read : List LocatedToken} {a : α}
    (h : body ({ t with nesting := t.nesting + 1 }.before read) =
      .ok a { t with nesting := t.nesting + 1 }) :
    nested body (t.before read) = .ok a t := by
  unfold nested
  split
  · rename_i b u hbody
    cases hbody.symm.trans h
    rfl
  · rename_i e u hbody
    cases hbody.symm.trans h

/-- The level is closed after a failure as well. -/
theorem nested_error {body : Parse α} {t : ParserState} {read : List LocatedToken} {e : ParseError}
    (h : body ({ t with nesting := t.nesting + 1 }.before read) =
      .error e { t with nesting := t.nesting + 1 }) :
    nested body (t.before read) = .error e t := by
  unfold nested
  split
  · rename_i b u hbody
    cases hbody.symm.trans h
  · rename_i f u hbody
    cases hbody.symm.trans h
    rfl

/-- The other direction, for a body that reads some tokens whenever it succeeds. -/
theorem exists_of_nested_eq_ok {body : Parse α} {s t : ParserState} {a : α}
    (h : nested body s = .ok a t) :
    ∃ u, body { s with nesting := s.nesting + 1 } = .ok a u ∧
      ∀ read, { s with nesting := s.nesting + 1 } = u.before read → s = t.before read := by
  unfold nested at h
  split at h
  · rename_i b u hbody
    cases h
    refine ⟨u, hbody, ?_⟩
    intro read hread
    cases s
    cases u
    simp only [ParserState.before, ParserState.mk.injEq] at hread ⊢
    obtain ⟨hrest, hfinish, hnesting⟩ := hread
    exact ⟨hrest, hfinish, by rw [← hnesting, Nat.add_sub_cancel]⟩
  · cases h

/-! ### Operators -/

/-- The test for the operators of a level. -/
def operatorOf : Precedence → Token → Option BinaryOp
  | .or => or?
  | .and => and?
  | .comparison => fun token ↦ (comparison? token).map .comparison
  | .concat => concat?
  | .additive => additive?
  | .multiplicative => multiplicative?

theorem operatorOf_operator (level : Precedence) (op : BinaryOp) :
    operatorOf level (.operator op) = if op.precedence = level then some op else none := by
  rcases op with _ | (_ | _ | _ | _) | _ | _ | _ <;> cases level <;> rfl

theorem exists_of_operatorOf_eq_some {level : Precedence} {token : Token} {op : BinaryOp}
    (h : operatorOf level token = some op) : ∃ other, token = .operator other := by
  cases token with
  | operator other => exact ⟨other, rfl⟩
  | _ => cases level <;> cases h

/-- Each test finds exactly the operators of its level. -/
theorem operatorOf_eq_some {level : Precedence} {token : Token} {op : BinaryOp} :
    operatorOf level token = some op ↔ token = .operator op ∧ op.precedence = level := by
  constructor
  · intro h
    obtain ⟨other, rfl⟩ := exists_of_operatorOf_eq_some h
    rw [operatorOf_operator] at h
    split at h
    · cases h
      exact ⟨rfl, by assumption⟩
    · cases h
  · rintro ⟨rfl, hop⟩
    rw [operatorOf_operator, if_pos hop]

/-- The test for comparisons gives the comparison itself. -/
theorem comparison?_eq_some {token : Token} {op : Comparison} :
    comparison? token = some op ↔ token = .operator (.comparison op) := by
  constructor
  · intro h
    unfold comparison? at h
    split at h
    · cases h
      rfl
    · cases h
  · rintro rfl
    rfl

end Parse

end ColumnFormula
