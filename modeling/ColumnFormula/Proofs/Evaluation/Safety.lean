import ColumnFormula.Proofs.Evaluation.Columns

/-!
# Bound formulas are safe

Evaluation of a tree about which nothing is known may break down in ways that are no errors of the
language: a reference was never bound, a function asks for an argument that it does not have, or a
function that chooses between its arguments stands where all of them are evaluated.
`Expr.evalUnchecked` takes arguments by their places and has an outcome for each of these
(`Failure`). On bound trees none of them occurs: it does what `Expr.eval` does
(`evalUnchecked_toReferences`). With what is known of the listed columns, a formula that binds is
safe (`Expr.safeFor_of_bind`).
-/

set_option autoImplicit false
set_option relaxedAutoImplicit false

namespace ColumnFormula

/-! ### Evaluation without checks -/

/-- How evaluation may end without a value when nothing is known about the tree. -/
inductive Failure where
  /-- An error of the language. -/
  | error (error : EvalError)
  /-- A reference that was never bound. -/
  | unbound (reference : Reference)
  /-- An argument past the end of the argument list. -/
  | noArgument (f : Builtin) (place : Nat)
  /-- A function that chooses between its arguments where all of them are evaluated, or the other
  way round. -/
  | misplaced (f : Builtin)

/-- A step that has only the errors of the language. -/
def Failure.lift {α : Type} (x : Except EvalError α) : Except Failure α := x.mapError .error

/-- The argument at a place. -/
def argumentAt {α : Type} (f : Builtin) (args : List α) (place : Nat) : Except Failure α :=
  match args[place]? with
  | some arg => .ok arg
  | none => .error (.noArgument f place)

/-- The result of a function on evaluated arguments, which it takes by their places. -/
def Builtin.applyUnchecked (f : Builtin) (values : List Value) : Except Failure Value :=
  match f with
  | .ifThenElse => .error (.misplaced .ifThenElse)
  | .ifNil => .error (.misplaced .ifNil)
  | .and => do
    let bs ← Failure.lift (truths (.argument .and) values)
    .ok (.boolean (bs.all id))
  | .or => do
    let bs ← Failure.lift (truths (.argument .or) values)
    .ok (.boolean (bs.any id))
  | .not => do
    let value ← argumentAt f values 0
    let b ← Failure.lift (value.truth (.argument .not))
    .ok (.boolean (!b))
  | .isNil => do
    let value ← argumentAt f values 0
    .ok (.boolean value.isNil)
  | .concat => .ok (.text (String.join (values.map Value.render)))
  | .abs => do
    let value ← argumentAt f values 0
    let x ← Failure.lift (value.operand (.argument .abs))
    .ok (.number x.abs)
  | .round => do
    let value ← argumentAt f values 0
    let x ← Failure.lift (value.operand (.argument .round))
    match values[1]? with
    | some digits => do
      let d ← Failure.lift (digits.operand (.argument .round))
      .ok (.number (roundTo x (digitCountOf d)))
    | none => .ok (.number (roundTo x 0))
  | .len => do
    let value ← argumentAt f values 0
    .ok (.number (.ofNat value.render.length))
  | .upper => do
    let value ← argumentAt f values 0
    .ok (.text (String.ofList (upperText value.render.toList)))
  | .lower => do
    let value ← argumentAt f values 0
    .ok (.text (String.ofList (lowerText value.render.toList)))

/-- The result of a function that chooses between its arguments, given what each of them would
evaluate to. -/
def Builtin.chooseUnchecked (f : Builtin) (outcomes : List (Except Failure Value)) :
    Except Failure Value :=
  match f with
  | .ifThenElse => do
    let condition ← ← argumentAt f outcomes 0
    if ← Failure.lift (condition.truth .condition) then
      let yes ← argumentAt f outcomes 1
      yes
    else
      let no ← argumentAt f outcomes 2
      no
  | .ifNil => do
    let value ← ← argumentAt f outcomes 0
    if value.isNil then
      let fallback ← argumentAt f outcomes 1
      fallback
    else .ok value
  | f => .error (.misplaced f)

namespace Expr

mutual

/-- The value of a tree of any references for a row. -/
def evalUnchecked (row : Row) : Expr Reference → Except Failure Value
  | .number value => .ok (.number value)
  | .text content => .ok (.text content)
  | .boolean value => .ok (.boolean value)
  | .nil => .ok .nil
  | .reference (.bound column) => .ok (row column.index)
  | .reference unbound => .error (.unbound unbound)
  | .binary op left right =>
    match op with
    | .and => do
      let a ← left.evalUnchecked row
      if ← Failure.lift (a.truth .conjunction) then
        let b ← right.evalUnchecked row
        let truth ← Failure.lift (b.truth .conjunction)
        .ok (.boolean truth)
      else .ok (.boolean false)
    | .or => do
      let a ← left.evalUnchecked row
      if ← Failure.lift (a.truth .disjunction) then .ok (.boolean true)
      else
        let b ← right.evalUnchecked row
        let truth ← Failure.lift (b.truth .disjunction)
        .ok (.boolean truth)
    | op => do
      let a ← left.evalUnchecked row
      let b ← right.evalUnchecked row
      Failure.lift (op.apply a b)
  | .chain operands operators =>
    match operands with
    | [] => .ok (.boolean true)
    | first :: rest => do
      let left ← first.evalUnchecked row
      let holds ← linksUnchecked row left operators rest
      .ok (.boolean holds)
  | .call name args =>
    match Builtin.ofName? name with
    | none => .error (.error (.unknownFunction name))
    | some f =>
      if f.arity.accepts args.length then
        if f.isLazy then f.chooseUnchecked (outcomesUnchecked row args)
        else do
          let values ← (outcomesUnchecked row args).mapM id
          f.applyUnchecked values
      else .error (.error (.wrongArity f args.length))

def linksUnchecked (row : Row) (left : Value) :
    List Comparison → List (Expr Reference) → Except Failure Bool
  | op :: operators, e :: rest => do
    let right ← e.evalUnchecked row
    if op.holds left right then linksUnchecked row right operators rest else .ok false
  | _, _ => .ok true

/-- What each of several trees evaluates to. -/
def outcomesUnchecked (row : Row) : List (Expr Reference) → List (Except Failure Value)
  | [] => []
  | e :: rest => e.evalUnchecked row :: outcomesUnchecked row rest

end

mutual

/-- A bound tree as a tree of references, all of which are bound. -/
def toReferences : Expr BoundColumn → Expr Reference
  | .number value => .number value
  | .text content => .text content
  | .boolean value => .boolean value
  | .nil => .nil
  | .reference column => .reference (.bound column)
  | .binary op left right => .binary op left.toReferences right.toReferences
  | .chain operands operators => .chain (toReferencesList operands) operators
  | .call name args => .call name (toReferencesList args)

def toReferencesList : List (Expr BoundColumn) → List (Expr Reference)
  | [] => []
  | e :: rest => e.toReferences :: toReferencesList rest

end

end Expr

/-! ### Only errors of the language -/

namespace Failure

variable {α β : Type}

@[simp] theorem lift_ok (a : α) : lift (.ok a) = .ok a := rfl

theorem lift_bind (x : Except EvalError α) (f : α → Except EvalError β) :
    lift (x >>= f) = (do
      let a ← lift x
      lift (f a)) := by
  cases x <;> rfl

end Failure

theorem argumentAt_cons_zero {α : Type} (f : Builtin) (arg : α) (args : List α) :
    argumentAt f (arg :: args) 0 = .ok arg := rfl

/-- A function that evaluates all its arguments finds all that it asks for. -/
theorem Builtin.applyUnchecked_of_accepts {f : Builtin} {values : List Value}
    (hlazy : f.isLazy = false) (harity : f.arity.accepts values.length = true) :
    f.applyUnchecked values = Failure.lift (f.apply values) := by
  have hsingle : ∀ {n : Nat}, (Arity.exactly 1).accepts n = true → n = 1 := of_decide_eq_true
  cases f with
  | ifThenElse | ifNil => cases hlazy
  | and | or =>
    rw [applyUnchecked, apply, Failure.lift_bind]
    rfl
  | concat => rfl
  | round =>
    obtain ⟨hleast, hmost⟩ := Bool.and_eq_true_iff.mp harity
    rcases Nat.lt_or_eq_of_le (of_decide_eq_true hmost) with hlt | htwo
    · have hone : values.length = 1 := Nat.le_antisymm (Nat.le_of_lt_succ hlt)
        (of_decide_eq_true hleast)
      obtain ⟨value, rfl⟩ := List.length_eq_one_iff.mp hone
      simp only [applyUnchecked, apply, argumentAt_cons_zero, Failure.lift_bind, ok_bind]
      rfl
    · obtain ⟨value, digits, rfl⟩ := List.length_eq_two.mp htwo
      simp only [applyUnchecked, apply, argumentAt_cons_zero, Failure.lift_bind, ok_bind]
      rfl
  | not | abs =>
    obtain ⟨value, rfl⟩ := List.length_eq_one_iff.mp (hsingle harity)
    rw [apply, Failure.lift_bind]
    rfl
  | isNil | len | upper | lower =>
    obtain ⟨value, rfl⟩ := List.length_eq_one_iff.mp (hsingle harity)
    rfl

namespace Expr

variable {row : Row}

theorem length_of_evalList {es : List (Expr BoundColumn)} {values : List Value}
    (h : evalList row es = .ok values) : values.length = es.length := by
  induction es generalizing values with
  | nil =>
    obtain rfl := Except.ok.inj h
    rfl
  | cons e rest ih =>
    rw [evalList] at h
    obtain ⟨value, -, hrest⟩ := bind_eq_ok_iff.mp h
    obtain ⟨others, hothers, hvalues⟩ := bind_eq_ok_iff.mp hrest
    obtain rfl := Except.ok.inj hvalues
    rw [List.length_cons, ih hothers, List.length_cons]

theorem length_toReferencesList (es : List (Expr BoundColumn)) :
    (toReferencesList es).length = es.length := by
  induction es with
  | nil => rfl
  | cons e rest ih => rw [toReferencesList, List.length_cons, ih, List.length_cons]

/-! ### Bound trees break down nowhere -/

theorem outcomesUnchecked_toReferencesList {es : List (Expr BoundColumn)}
    (h : ∀ e ∈ es, e.toReferences.evalUnchecked row = Failure.lift (e.eval row)) :
    outcomesUnchecked row (toReferencesList es) = es.map fun e ↦ Failure.lift (e.eval row) := by
  induction es with
  | nil => rfl
  | cons e rest ih =>
    obtain ⟨he, hrest⟩ := List.forall_mem_cons.mp h
    rw [toReferencesList, outcomesUnchecked, he, ih hrest, List.map_cons]

theorem mapM_outcomes (row : Row) (es : List (Expr BoundColumn)) :
    (es.map fun e ↦ Failure.lift (e.eval row)).mapM id = Failure.lift (evalList row es) := by
  induction es with
  | nil => rfl
  | cons e rest ih =>
    rw [List.map_cons, List.mapM_cons, ih, evalList, Failure.lift_bind]
    simp only [Failure.lift_bind]
    rfl

theorem linksUnchecked_toReferencesList {es : List (Expr BoundColumn)}
    (h : ∀ e ∈ es, e.toReferences.evalUnchecked row = Failure.lift (e.eval row)) (left : Value)
    (operators : List Comparison) :
    linksUnchecked row left operators (toReferencesList es) =
      Failure.lift (evalLinks row left operators es) := by
  induction es generalizing left operators with
  | nil => cases operators <;> rfl
  | cons e rest ih =>
    obtain ⟨he, hrest⟩ := List.forall_mem_cons.mp h
    cases operators with
    | nil => rfl
    | cons op operators =>
      rw [toReferencesList, linksUnchecked, evalLinks, he, Failure.lift_bind]
      congr 1
      funext right
      rw [ih hrest]
      split <;> rfl

/-- A bound tree evaluates without a check as it does with checks: it breaks down nowhere. -/
theorem evalUnchecked_toReferences (row : Row) (b : Expr BoundColumn) :
    b.toReferences.evalUnchecked row = Failure.lift (b.eval row) := by
  induction b using treeInduction with
  | number | text | boolean | nil | reference => rfl
  | binary op left right ihleft ihright =>
    rw [toReferences]
    cases op with
    | and | or =>
      simp only [evalUnchecked, eval, ihleft, ihright, Failure.lift_bind,
        apply_ite Failure.lift, Failure.lift_ok]
    | arithmetic | concat | comparison =>
      simp only [evalUnchecked, eval, ihleft, ihright, Failure.lift_bind]
  | chain operands operators ih =>
    cases operands with
    | nil => rfl
    | cons first rest =>
      obtain ⟨hfirst, hrest⟩ := List.forall_mem_cons.mp ih
      rw [toReferences, toReferencesList, evalUnchecked, eval, hfirst]
      simp only [Failure.lift_bind, linksUnchecked_toReferencesList hrest, Failure.lift_ok]
  | call name args ih =>
    have houtcomes := outcomesUnchecked_toReferencesList ih
    rw [toReferences, evalUnchecked]
    cases callKind name args with
    | unknown hname =>
      rw [eval_call_unknown hname, hname]
      rfl
    | rejected f hname harity =>
      rw [eval_call_rejected hname harity, hname]
      simp only [length_toReferencesList, harity, Bool.false_eq_true, if_false]
      rfl
    | ifThenElse condition yes no hname heq =>
      subst heq
      rw [eval_call_ifThenElse hname, hname, houtcomes]
      simp only [Failure.lift_bind, apply_ite Failure.lift]
      rfl
    | ifNil e fallback hname heq =>
      subst heq
      rw [eval_call_ifNil hname, hname, houtcomes]
      simp only [Failure.lift_bind, apply_ite Failure.lift]
      rfl
    | strict f hname hlazy harity =>
      rw [eval_call_strict hname hlazy harity, hname, houtcomes, mapM_outcomes]
      simp only [length_toReferencesList, harity, hlazy, Bool.false_eq_true, if_true, if_false]
      cases hvalues : evalList row args with
      | error error => rfl
      | ok values =>
        rw [← length_of_evalList hvalues] at harity
        exact Builtin.applyUnchecked_of_accepts hlazy harity

end Expr

/-! ### Safety -/

/-- An operand or an argument of a type that its use does not allow. -/
def EvalError.IsTypeError : EvalError → Prop
  | .notBoolean .. => True
  | .notNumericText .. => True
  | .notNumericBoolean .. => True
  | _ => False

/-- What a bound formula promises: it reads columns of the schema that it lists, each once, and no
others, and for every row it gives a value or one of the errors of the language. -/
structure Expr.SafeFor (b : Expr BoundColumn) (schema : Schema) : Prop where
  nodup : b.columns.Nodup
  within : ∀ index ∈ b.columns, index < schema.width
  reads : ∀ first second : Row, (∀ index ∈ b.columns, first index = second index) →
    b.eval first = b.eval second
  outcome : ∀ row,
    (∃ value, b.eval row = .ok value ∧ b.toReferences.evalUnchecked row = .ok value) ∨
    ∃ error, b.eval row = .error error ∧ b.toReferences.evalUnchecked row = .error (.error error) ∧
      (error.IsTypeError ∨ (∃ name, error = .unknownFunction name) ∨
        ∃ f count, error = .wrongArity f count)

/-- Whatever functions it calls with however many arguments, a formula that binds is safe. -/
theorem Expr.safeFor_of_bind {e : Expr Reference} {schema : Schema} {b : Expr BoundColumn}
    (h : e.bind schema = .ok b) : b.SafeFor schema where
  nodup := nodup_columns b
  within := lt_width_of_mem_columns h
  reads first second hagree := eval_congr hagree
  outcome row := by
    rw [evalUnchecked_toReferences]
    cases b.eval row with
    | ok value => exact .inl ⟨value, rfl, rfl⟩
    | error error =>
      refine .inr ⟨error, rfl, rfl, ?_⟩
      cases error with
      | unknownFunction name => exact .inr (.inl ⟨name, rfl⟩)
      | wrongArity f count => exact .inr (.inr ⟨f, count, rfl⟩)
      | _ => exact .inl trivial

/-- `If(A > [price], NoSuch(#1), round(A, A, B))` on a table with the columns `a` and `price`. -/
theorem Expr.safeFor_of_bind_unknown_call :
    let e : Expr Reference := .call "If" [
      .binary (.comparison .greater) (.reference (.identifier "A"))
        (.reference (.columnName "price")),
      .call "NoSuch" [.reference (.columnIndex 1)],
      .call "round" [.reference (.identifier "A"), .reference (.identifier "A"),
        .reference (.identifier "B")]]
    let b : Expr BoundColumn := .call "If" [
      .binary (.comparison .greater) (.reference ⟨0, "a"⟩) (.reference ⟨1, "price"⟩),
      .call "NoSuch" [.reference ⟨1, "price"⟩],
      .call "round" [.reference ⟨0, "a"⟩, .reference ⟨0, "a"⟩, .reference ⟨1, "price"⟩]]
    let schema := Schema.ofNames ["a", "price"]
    e.bind schema = .ok b ∧ b.SafeFor schema := by
  intro e b schema
  have hbind : e.bind schema = .ok b := rfl
  exact ⟨hbind, Expr.safeFor_of_bind hbind⟩

end ColumnFormula
