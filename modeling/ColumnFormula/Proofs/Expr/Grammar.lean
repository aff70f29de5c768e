import ColumnFormula.Expr.Parser

/-!
# The grammar of formulas

The language of formulas as derivations over lists of tokens, without any reader in mind. Binary
operators stand on six levels (`Precedence`); an expression of a level is a first operand of the
next tighter level and a repetition of links, each an operator of the level and a further operand.
Links group to the left, except for comparisons, of which one makes a binary node and several make
one chain (`comparisonTree`). `Derives` gives for a phrase the tokens it may consist of, and counts
the nesting: the largest number of parentheses, argument lists and unary minus signs that one
primary of the phrase lies inside of. `DerivesStatement` adds assignments and new columns.

The lemmas below are what a reader with one token of lookahead relies on: a derivation begins with
a token that starts an operand (`Derives.exists_startsOperand`), neither the sign of assignment nor
the word `NEW` occurs in it (`Derives.not_mem`), and a primary by itself is an expression of every
level (`Derives.or_of_primary`).
-/

set_option autoImplicit false
set_option relaxedAutoImplicit false

namespace ColumnFormula

/-! ### Operators and operands -/

/-- The levels of binary operators. -/
inductive Precedence where
  | or
  | and
  | comparison
  | concat
  | additive
  | multiplicative
  deriving DecidableEq, Repr

/-- The place of a level, loosest first. -/
def Precedence.rank : Precedence → Nat
  | .or => 0
  | .and => 1
  | .comparison => 2
  | .concat => 3
  | .additive => 4
  | .multiplicative => 5

/-- The level of an operator. -/
def BinaryOp.precedence : BinaryOp → Precedence
  | .or => .or
  | .and => .and
  | .comparison _ => .comparison
  | .concat => .concat
  | .arithmetic .add => .additive
  | .arithmetic .subtract => .additive
  | .arithmetic .multiply => .multiplicative
  | .arithmetic .divide => .multiplicative

/-- The tree of a token that is an operand by itself: a literal or a reference. -/
def Token.operand? : Token → Option (Expr Reference)
  | .number value => some (.number value)
  | .text content => some (.text content)
  | .boolean value => some (.boolean value)
  | .nil => some .nil
  | .identifier name => some (.reference (.identifier name))
  | .columnName name => some (.reference (.columnName name))
  | .columnIndex index => some (.reference (.columnIndex index))
  | _ => none

/-- A link of an expression: an operator and the operand behind it. -/
abbrev Link := BinaryOp × Expr Reference

/-- The tree of links that group to the left. -/
def leftTree (first : Expr Reference) (links : List Link) : Expr Reference :=
  links.foldl (fun left link ↦ .binary link.1 left link.2) first

/-- The tree of comparisons in a row: none leaves the operand, one is a binary node, two or more
are one chain. -/
def comparisonTree (first : Expr Reference) :
    List (Comparison × Expr Reference) → Expr Reference
  | [] => first
  | [(op, right)] => .binary (.comparison op) first right
  | links => .chain (first :: links.map Prod.snd) (links.map Prod.fst)

/-! ### Derivations -/

/-- The parts of a formula with the trees they stand for. -/
inductive Phrase where
  /-- An expression of a level. -/
  | level (level : Precedence) (tree : Expr Reference)
  /-- Links of one level. -/
  | links (level : Precedence) (links : List Link)
  /-- An operand with its minus signs. -/
  | unary (tree : Expr Reference)
  | primary (tree : Expr Reference)
  /-- The arguments of a call, at least one. -/
  | arguments (trees : List (Expr Reference))

/-- An operand of a level is an expression of the next tighter level. -/
def Precedence.operand : Precedence → Expr Reference → Phrase
  | .or => .level .and
  | .and => .level .comparison
  | .comparison => .level .concat
  | .concat => .level .additive
  | .additive => .level .multiplicative
  | .multiplicative => .unary

/-- A phrase, tokens it may consist of, and the nesting of the derivation: the largest number of
parentheses, argument lists and minus signs around one primary. -/
inductive Derives : Phrase → List Token → Nat → Prop
  | leftAssociative {level : Precedence} {first : Expr Reference} {links : List Link}
      {ts us : List Token} {m n : Nat} (hlevel : level ≠ .comparison)
      (hfirst : Derives (level.operand first) ts m) (hlinks : Derives (.links level links) us n) :
      Derives (.level level (leftTree first links)) (ts ++ us) (max m n)
  | comparison {first : Expr Reference} {links : List (Comparison × Expr Reference)}
      {ts us : List Token} {m n : Nat} (hfirst : Derives (.level .concat first) ts m)
      (hlinks : Derives (.links .comparison (links.map (Prod.map .comparison id))) us n) :
      Derives (.level .comparison (comparisonTree first links)) (ts ++ us) (max m n)
  | noLink {level : Precedence} : Derives (.links level []) [] 0
  | link {level : Precedence} {op : BinaryOp} {right : Expr Reference} {links : List Link}
      {ts us : List Token} {m n : Nat} (hop : op.precedence = level)
      (hright : Derives (level.operand right) ts m) (hlinks : Derives (.links level links) us n) :
      Derives (.links level ((op, right) :: links)) (.operator op :: (ts ++ us)) (max m n)
  | minus {e : Expr Reference} {ts : List Token} {n : Nat} (h : Derives (.unary e) ts n) :
      Derives (.unary (.binary (.arithmetic .subtract) (.number (.zero false)) e))
        (.operator (.arithmetic .subtract) :: ts) (n + 1)
  | primary {e : Expr Reference} {ts : List Token} {n : Nat} (h : Derives (.primary e) ts n) :
      Derives (.unary e) ts n
  | single {token : Token} {e : Expr Reference} (h : token.operand? = some e) :
      Derives (.primary e) [token] 0
  | callEmpty {name : String} :
      Derives (.primary (.call name [])) [.identifier name, .openParen, .closeParen] 0
  | call {name : String} {args : List (Expr Reference)} {ts : List Token} {n : Nat}
      (h : Derives (.arguments args) ts n) :
      Derives (.primary (.call name args))
        (.identifier name :: .openParen :: (ts ++ [.closeParen])) (n + 1)
  | parentheses {e : Expr Reference} {ts : List Token} {n : Nat}
      (h : Derives (.level .or e) ts n) :
      Derives (.primary e) (.openParen :: (ts ++ [.closeParen])) (n + 1)
  | lastArgument {e : Expr Reference} {ts : List Token} {n : Nat}
      (h : Derives (.level .or e) ts n) : Derives (.arguments [e]) ts n
  | argument {e : Expr Reference} {args : List (Expr Reference)} {ts us : List Token} {m n : Nat}
      (hfirst : Derives (.level .or e) ts m) (hrest : Derives (.arguments args) us n) :
      Derives (.arguments (e :: args)) (ts ++ .comma :: us) (max m n)

/-- A statement, tokens it may consist of, and the nesting of its expression. -/
inductive DerivesStatement : Statement Reference → List Token → Nat → Prop
  | expression {e : Expr Reference} {ts : List Token} {n : Nat} (h : Derives (.level .or e) ts n) :
      DerivesStatement (.expression e) ts n
  | assign {token : Token} {target : Reference} {e : Expr Reference} {ts : List Token} {n : Nat}
      (htarget : Parse.reference? token = some target) (h : Derives (.level .or e) ts n) :
      DerivesStatement (.assign target e) (token :: .assign :: ts) n
  | newColumn {name : String} {e : Expr Reference} {ts : List Token} {n : Nat}
      (h : Derives (.level .or e) ts n) :
      DerivesStatement (.newColumn name e)
        (.new :: .openParen :: .text name :: .closeParen :: .assign :: ts) n

/-! ### The tokens of a derivation -/

/-- The tokens that an operand may begin with. -/
def Token.StartsOperand (token : Token) : Prop :=
  token.operand?.isSome ∨ token = .openParen ∨ token = .operator (.arithmetic .subtract)

/-- A phrase that is no repetition of links. -/
def Phrase.IsOperand : Phrase → Prop
  | .links _ _ => False
  | _ => True

theorem Precedence.isOperand_operand (level : Precedence) (e : Expr Reference) :
    (level.operand e).IsOperand := by
  cases level <;> trivial

/-- A derivation of anything but links begins with a token that starts an operand. -/
theorem Derives.exists_startsOperand {phrase : Phrase} {ts : List Token} {n : Nat}
    (h : Derives phrase ts n) (hphrase : phrase.IsOperand) :
    ∃ token rest, ts = token :: rest ∧ token.StartsOperand := by
  induction h with
  | @leftAssociative level first _ _ us _ _ _ _ _ ih _ =>
    obtain ⟨token, rest, rfl, hstart⟩ := ih (level.isOperand_operand first)
    exact ⟨token, rest ++ us, rfl, hstart⟩
  | @comparison _ _ _ us _ _ _ _ ih _ =>
    obtain ⟨token, rest, rfl, hstart⟩ := ih trivial
    exact ⟨token, rest ++ us, rfl, hstart⟩
  | noLink => exact hphrase.elim
  | link => exact hphrase.elim
  | minus => exact ⟨_, _, rfl, .inr (.inr rfl)⟩
  | primary _ ih => exact ih trivial
  | single h => exact ⟨_, _, rfl, .inl (by rw [h]; rfl)⟩
  | callEmpty => exact ⟨_, _, rfl, .inl rfl⟩
  | call => exact ⟨_, _, rfl, .inl rfl⟩
  | parentheses => exact ⟨_, _, rfl, .inr (.inl rfl)⟩
  | lastArgument _ ih => exact ih trivial
  | @argument _ _ _ us _ _ _ _ ih _ =>
    obtain ⟨token, rest, rfl, hstart⟩ := ih trivial
    exact ⟨token, rest ++ .comma :: us, rfl, hstart⟩

/-- An expression has no token of assignment and no word `NEW`. -/
theorem Derives.not_mem {phrase : Phrase} {ts : List Token} {n : Nat} (h : Derives phrase ts n)
    {token : Token} (htoken : token = .assign ∨ token = .new) : token ∉ ts := by
  have hsingle : ∀ {t : Token} {e : Expr Reference}, t.operand? = some e → token ≠ t := by
    rintro t e ht rfl
    rcases htoken with rfl | rfl <;> simp [Token.operand?] at ht
  have hother : token ≠ .openParen ∧ token ≠ .closeParen ∧ token ≠ .comma ∧
      (∀ op, token ≠ .operator op) ∧ ∀ name, token ≠ .identifier name := by
    rcases htoken with rfl | rfl <;> simp
  obtain ⟨hopen, hclose, hcomma, hoperator, hidentifier⟩ := hother
  induction h with
  | single h => simpa using hsingle h
  | _ => simp_all

/-! ### Lifting derivations through the levels -/

/-- An operand alone is an expression of its level. -/
theorem Derives.level_of_operand {level : Precedence} {e : Expr Reference} {ts : List Token}
    {n : Nat} (h : Derives (level.operand e) ts n) : Derives (.level level e) ts n := by
  by_cases hlevel : level = .comparison
  · subst hlevel
    have hlevel : Derives (.level .comparison (comparisonTree e [])) (ts ++ []) (max n 0) :=
      .comparison h .noLink
    rwa [List.append_nil, Nat.max_zero] at hlevel
  · have hlevel : Derives (.level level (leftTree e [])) (ts ++ []) (max n 0) :=
      .leftAssociative hlevel h .noLink
    rwa [List.append_nil, Nat.max_zero] at hlevel

/-- A primary is an operand of every level. -/
theorem Derives.operand_of_primary {e : Expr Reference} {ts : List Token} {n : Nat}
    (h : Derives (.primary e) ts n) (level : Precedence) : Derives (level.operand e) ts n := by
  have hmultiplicative : Derives (.level .multiplicative e) ts n := .level_of_operand (.primary h)
  have hadditive : Derives (.level .additive e) ts n := .level_of_operand hmultiplicative
  have hconcat : Derives (.level .concat e) ts n := .level_of_operand hadditive
  have hcomparison : Derives (.level .comparison e) ts n := .level_of_operand hconcat
  have hand : Derives (.level .and e) ts n := .level_of_operand hcomparison
  cases level
  · exact hand
  · exact hcomparison
  · exact hconcat
  · exact hadditive
  · exact hmultiplicative
  · exact .primary h

/-- An expression of any level is an expression. -/
theorem Derives.or_of_level {level : Precedence} {e : Expr Reference} {ts : List Token} {n : Nat}
    (h : Derives (.level level e) ts n) : Derives (.level .or e) ts n := by
  have hand : Derives (.level .and e) ts n → Derives (.level .or e) ts n :=
    fun h ↦ .level_of_operand h
  have hcomparison : Derives (.level .comparison e) ts n → Derives (.level .or e) ts n :=
    fun h ↦ hand (.level_of_operand h)
  have hconcat : Derives (.level .concat e) ts n → Derives (.level .or e) ts n :=
    fun h ↦ hcomparison (.level_of_operand h)
  have hadditive : Derives (.level .additive e) ts n → Derives (.level .or e) ts n :=
    fun h ↦ hconcat (.level_of_operand h)
  cases level
  · exact h
  · exact hand h
  · exact hcomparison h
  · exact hconcat h
  · exact hadditive h
  · exact hadditive (.level_of_operand h)

/-- A primary is an expression. -/
theorem Derives.or_of_primary {e : Expr Reference} {ts : List Token} {n : Nat}
    (h : Derives (.primary e) ts n) : Derives (.level .or e) ts n :=
  .or_of_level (.level_of_operand (h.operand_of_primary .or))

end ColumnFormula
