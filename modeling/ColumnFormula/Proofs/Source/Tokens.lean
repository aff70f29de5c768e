import ColumnFormula.Proofs.Expr.Grammar
import ColumnFormula.Proofs.Expr.Height
import ColumnFormula.Proofs.Token.Spelling

/-!
# The tokens of an expression

How a tree is written as tokens: operands that are operations themselves stand in parentheses,
arguments of calls do not. `Expr.WellFormed` says which trees have a source form: numbers without a
sign, texts that lack one of the quotes, names that the lexer reads as names, chains with at least
two operators. The tokens of a well-formed tree derive it, and the nesting of the derivation stays
below the number of its levels, because every pair of parentheses stands for one level
(`derives_tokens`).
-/

set_option autoImplicit false
set_option relaxedAutoImplicit false

namespace ColumnFormula

/-! ### Trees with a source form -/

/-- A number that a literal denotes: finite and without a minus sign, also on a zero. -/
def Binary64.IsLiteral : Binary64 → Prop
  | .finite negative _ _ _ => negative = false
  | _ => False

/-- A text that lacks one of the two quotes. -/
def Quotable (content : String) : Prop := '"' ∉ content.toList ∨ '\'' ∉ content.toList

/-- A token that has a spelling. -/
def Token.WellFormed : Token → Prop
  | .number value => value.IsLiteral
  | .text content => Quotable content
  | .identifier name => IsName name.toList
  | .columnName name => ']' ∉ name.toList
  | .columnIndex index => index < UInt64.size
  | _ => True

/-- A reference that is written as in a formula. -/
def Reference.WellFormed : Reference → Prop
  | .identifier name => IsName name.toList
  | .columnName name => ']' ∉ name.toList
  | .columnIndex index => index < UInt64.size
  | .bound _ => False

mutual

/-- A tree that has a source form. -/
def Expr.WellFormed : Expr Reference → Prop
  | .number value => value.IsLiteral
  | .text content => Quotable content
  | .boolean _ => True
  | .nil => True
  | .reference column => column.WellFormed
  | .binary _ left right => left.WellFormed ∧ right.WellFormed
  | .chain operands operators =>
    2 ≤ operators.length ∧ operands.length = operators.length + 1 ∧ Expr.AllWellFormed operands
  | .call name args =>
    IsName name.toList ∧ isNewWord name.toList = false ∧ Expr.AllWellFormed args

def Expr.AllWellFormed : List (Expr Reference) → Prop
  | [] => True
  | e :: rest => e.WellFormed ∧ Expr.AllWellFormed rest

end

/-- A statement that has a source form. -/
def Statement.WellFormed : Statement Reference → Prop
  | .expression value => value.WellFormed
  | .assign target value => target.WellFormed ∧ value.WellFormed
  | .newColumn name value => Quotable name ∧ value.WellFormed

theorem Expr.allWellFormed_iff {es : List (Expr Reference)} :
    Expr.AllWellFormed es ↔ ∀ e ∈ es, e.WellFormed := by
  induction es with
  | nil => simp [Expr.AllWellFormed]
  | cons e rest ih => simp [Expr.AllWellFormed, ih]

/-! ### Writing trees as tokens -/

/-- The token of a reference. A bound column is written by its position. -/
def Reference.token : Reference → Token
  | .identifier name => .identifier name
  | .columnName name => .columnName name
  | .columnIndex index => .columnIndex index
  | .bound column => .columnIndex column.index

def parenthesized (tokens : List Token) : List Token := .openParen :: (tokens ++ [.closeParen])

namespace Expr

/-- Whether the tree is an operation, which stands in parentheses as an operand. -/
def isOperation : Expr Reference → Bool
  | .binary .. => true
  | .chain .. => true
  | _ => false

/-- The tokens of a tree as an operand, from its own tokens. -/
def asOperand (e : Expr Reference) (tokens : List Token) : List Token :=
  if e.isOperation then parenthesized tokens else tokens

mutual

/-- The tokens of a tree. -/
def tokens : Expr Reference → List Token
  | .number value => [.number value]
  | .text content => [.text content]
  | .boolean value => [.boolean value]
  | .nil => [.nil]
  | .reference column => [column.token]
  | .binary op left right =>
    left.asOperand left.tokens ++ .operator op :: right.asOperand right.tokens
  | .chain operands operators => chainTokens operands operators
  | .call name args => .identifier name :: parenthesized (argumentTokens args)

/-- The operands of a chain with an operator before each but the first. -/
def chainTokens : List (Expr Reference) → List Comparison → List Token
  | [], _ => []
  | e :: _, [] => e.asOperand e.tokens
  | e :: rest, op :: operators =>
    e.asOperand e.tokens ++ .operator (.comparison op) :: chainTokens rest operators

/-- The arguments of a call with commas between them. -/
def argumentTokens : List (Expr Reference) → List Token
  | [] => []
  | [e] => e.tokens
  | e :: rest => e.tokens ++ .comma :: argumentTokens rest

end

end Expr

/-- The tokens of a statement. -/
def Statement.tokens : Statement Reference → List Token
  | .expression value => value.tokens
  | .assign target value => target.token :: .assign :: value.tokens
  | .newColumn name value => .new :: (parenthesized [.text name] ++ .assign :: value.tokens)

/-! ### The tokens of a tree derive it -/

/-- Two primaries with an operator between them are an expression of the level of the operator. -/
theorem derives_binary {left right : Expr Reference} {ts us : List Token} {m n : Nat}
    (op : BinaryOp) (hleft : Derives (.primary left) ts m)
    (hright : Derives (.primary right) us n) :
    Derives (.level .or (.binary op left right)) (ts ++ .operator op :: us) (max m n) := by
  have hlinks : Derives (.links op.precedence [(op, right)]) (.operator op :: (us ++ []))
      (max n 0) := .link rfl (hright.operand_of_primary op.precedence) .noLink
  rw [List.append_nil, Nat.max_zero] at hlinks
  by_cases hlevel : op.precedence = .comparison
  · cases op with
    | comparison op =>
      have hlevel : Derives (.level .comparison (comparisonTree left [(op, right)])) _ _ :=
        .comparison (hleft.operand_of_primary .comparison) hlinks
      exact .or_of_level hlevel
    | arithmetic op => cases op <;> cases hlevel
    | concat => cases hlevel
    | and => cases hlevel
    | or => cases hlevel
  · exact .or_of_level (.leftAssociative hlevel (hleft.operand_of_primary op.precedence) hlinks)

/-- Two or more comparisons are one chain. -/
theorem comparisonTree_zip {first : Expr Reference} {rest : List (Expr Reference)}
    {operators : List Comparison} (hlength : rest.length = operators.length)
    (htwo : 2 ≤ operators.length) :
    comparisonTree first (operators.zip rest) = .chain (first :: rest) operators := by
  have hoperators : (operators.zip rest).map Prod.fst = operators :=
    List.map_fst_zip hlength.ge
  have hrest : (operators.zip rest).map Prod.snd = rest := List.map_snd_zip hlength.le
  match operators, rest, htwo with
  | _ :: _ :: _, _ :: _ :: _, _ =>
    exact congrArg₂ Expr.chain (congrArg (List.cons first) hrest) hoperators

/-- The number of levels of an operand bounds the nesting of the tokens that derive it; the
parentheses of an operation use up the difference. -/
theorem derives_asOperand {e : Expr Reference} {n : Nat} (hn : n < e.depth)
    (h : Derives (if e.isOperation then .level .or e else .primary e) e.tokens n) :
    ∃ n ≤ e.depth, Derives (.primary e) (e.asOperand e.tokens) n := by
  unfold Expr.asOperand
  split at h
  · rename_i hoperation
    rw [if_pos hoperation]
    exact ⟨n + 1, hn, .parentheses h⟩
  · rename_i hatom
    rw [if_neg hatom]
    exact ⟨n, hn.le, h⟩

theorem derives_or {e : Expr Reference} {n : Nat}
    (h : Derives (if e.isOperation then .level .or e else .primary e) e.tokens n) :
    Derives (.level .or e) e.tokens n := by
  split at h
  · exact h
  · exact h.or_of_primary

/-- Operators and operands behind the first operand of a chain. -/
theorem derives_chainTokens {first : Expr Reference} {rest : List (Expr Reference)}
    {operators : List Comparison} {bound : Nat} (hlength : rest.length = operators.length)
    (hoperands : ∀ e ∈ first :: rest, ∃ n ≤ bound, Derives (.primary e) (e.asOperand e.tokens) n) :
    ∃ ts n, n ≤ bound ∧
      Expr.chainTokens (first :: rest) operators = first.asOperand first.tokens ++ ts ∧
      Derives (.links .comparison ((operators.zip rest).map (Prod.map .comparison id))) ts n := by
  induction rest generalizing first operators with
  | nil =>
    obtain rfl := List.length_eq_zero_iff.mp hlength.symm
    exact ⟨[], 0, Nat.zero_le _, by simp [Expr.chainTokens], .noLink⟩
  | cons second rest ih =>
    obtain ⟨op, operators, rfl⟩ := List.exists_cons_of_length_eq_add_one hlength.symm
    obtain ⟨ts, n, hn, htokens, hlinks⟩ := ih (by simpa using hlength)
      (fun e he ↦ hoperands e (List.mem_cons_of_mem first he))
    obtain ⟨m, hm, hsecond⟩ := hoperands second (List.mem_cons_of_mem _ List.mem_cons_self)
    refine ⟨_, max m n, Nat.max_le.mpr ⟨hm, hn⟩, ?_,
      .link rfl (hsecond.operand_of_primary .comparison) hlinks⟩
    rw [Expr.chainTokens, htokens]

theorem derives_argumentTokens {e : Expr Reference} {rest : List (Expr Reference)} {bound : Nat}
    (hargs : ∀ arg ∈ e :: rest, ∃ n ≤ bound, Derives (.level .or arg) arg.tokens n) :
    ∃ n ≤ bound, Derives (.arguments (e :: rest)) (Expr.argumentTokens (e :: rest)) n := by
  induction rest generalizing e with
  | nil =>
    obtain ⟨n, hn, h⟩ := hargs e List.mem_cons_self
    exact ⟨n, hn, .lastArgument h⟩
  | cons second rest ih =>
    obtain ⟨m, hm, hfirst⟩ := hargs e List.mem_cons_self
    obtain ⟨n, hn, hrest⟩ := ih fun arg harg ↦ hargs arg (List.mem_cons_of_mem e harg)
    exact ⟨max m n, Nat.max_le.mpr ⟨hm, hn⟩, .argument hfirst hrest⟩

/-- The tokens of a well-formed tree derive it: an operation as an expression, every other tree as
a primary. The nesting stays below the number of levels. -/
theorem derives_tokens (e : Expr Reference) (h : e.WellFormed) :
    ∃ n < e.depth, Derives (if e.isOperation then .level .or e else .primary e) e.tokens n := by
  -- The induction is on the number of levels, since the operands of a chain are a list.
  induction hdepth : e.depth using Nat.strong_induction_on generalizing e with
  | _ depth ih =>
    subst hdepth
    have hchild : ∀ child ∈ e.children, child.WellFormed → ∃ n < child.depth,
        Derives (if child.isOperation then .level .or child else .primary child) child.tokens n :=
      fun child hmem hwell ↦ ih child.depth (Expr.depth_lt_of_mem_children hmem) child hwell rfl
    have hoperand : ∀ child ∈ e.children, child.WellFormed →
        ∃ n ≤ e.depth - 1, Derives (.primary child) (child.asOperand child.tokens) n := by
      intro child hmem hwell
      obtain ⟨n, hn, hderives⟩ := hchild child hmem hwell
      obtain ⟨k, hk, hprimary⟩ := derives_asOperand hn hderives
      have hlt := Expr.depth_lt_of_mem_children hmem
      exact ⟨k, by omega, hprimary⟩
    have hargument : ∀ child ∈ e.children, child.WellFormed →
        ∃ n ≤ e.depth - 2, Derives (.level .or child) child.tokens n := by
      intro child hmem hwell
      obtain ⟨n, hn, hderives⟩ := hchild child hmem hwell
      have hlt := Expr.depth_lt_of_mem_children hmem
      exact ⟨n, by omega, derives_or hderives⟩
    have hpos := e.depth_pos
    cases e with
    | number value => exact ⟨0, hpos, .single rfl⟩
    | text content => exact ⟨0, hpos, .single rfl⟩
    | boolean value => exact ⟨0, hpos, .single rfl⟩
    | nil => exact ⟨0, hpos, .single rfl⟩
    | reference column =>
      cases column with
      | identifier name => exact ⟨0, hpos, .single rfl⟩
      | columnName name => exact ⟨0, hpos, .single rfl⟩
      | columnIndex index => exact ⟨0, hpos, .single rfl⟩
      | bound column => exact h.elim
    | binary op left right =>
      obtain ⟨m, hm, hleft⟩ := hoperand left (by simp [Expr.children]) h.1
      obtain ⟨n, hn, hright⟩ := hoperand right (by simp [Expr.children]) h.2
      refine ⟨max m n, by omega, ?_⟩
      exact derives_binary op hleft hright
    | chain operands operators =>
      obtain ⟨htwo, hlength, hwell⟩ := h
      obtain ⟨first, rest, rfl⟩ := List.exists_cons_of_length_eq_add_one hlength
      have hrest : rest.length = operators.length := by simpa using hlength
      have hoperands : ∀ child ∈ first :: rest,
          ∃ n ≤ (Expr.chain (first :: rest) operators).depth - 1,
            Derives (.primary child) (child.asOperand child.tokens) n :=
        fun child hmem ↦ hoperand child hmem (Expr.allWellFormed_iff.mp hwell child hmem)
      obtain ⟨m, hm, hfirst⟩ := hoperands first List.mem_cons_self
      obtain ⟨ts, n, hn, htokens, hlinks⟩ := derives_chainTokens hrest hoperands
      refine ⟨max m n, by omega, ?_⟩
      have hchain := Derives.comparison (hfirst.operand_of_primary .comparison) hlinks
      rw [comparisonTree_zip hrest htwo, ← htokens] at hchain
      exact .or_of_level hchain
    | call name args =>
      obtain ⟨-, -, hwell⟩ := h
      cases args with
      | nil => exact ⟨0, hpos, .callEmpty⟩
      | cons arg rest =>
        obtain ⟨n, hn, harguments⟩ := derives_argumentTokens fun child hmem ↦
          hargument child hmem (Expr.allWellFormed_iff.mp hwell child hmem)
        have harg := arg.depth_pos
        have hlt : arg.depth < (Expr.call name (arg :: rest)).depth :=
          Expr.depth_lt_of_mem_children List.mem_cons_self
        exact ⟨n + 1, by omega, .call harguments⟩

/-- The tokens of a well-formed statement derive it, nested below the number of levels of its
expression. -/
theorem derivesStatement_tokens {statement : Statement Reference} (h : statement.WellFormed) :
    ∃ n < statement.value.depth, DerivesStatement statement statement.tokens n := by
  cases statement with
  | expression value =>
    obtain ⟨n, hn, hderives⟩ := derives_tokens value h
    exact ⟨n, hn, .expression (derives_or hderives)⟩
  | assign target value =>
    obtain ⟨htarget, hvalue⟩ := h
    obtain ⟨n, hn, hderives⟩ := derives_tokens value hvalue
    refine ⟨n, hn, .assign ?_ (derives_or hderives)⟩
    cases target with
    | identifier name => rfl
    | columnName name => rfl
    | columnIndex index => rfl
    | bound column => exact htarget.elim
  | newColumn name value =>
    obtain ⟨n, hn, hderives⟩ := derives_tokens value h.2
    exact ⟨n, hn, .newColumn (derives_or hderives)⟩

end ColumnFormula
