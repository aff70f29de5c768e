import ColumnFormula.Proofs.Source.Tokens
import ColumnFormula.Proofs.Token.Cutting
import Mathlib.Data.List.Chain

/-!
# Which tokens may touch

Between some tokens a blank is needed, so that the lexer does not read on: between two words, or
between `<` and `=`. `Token.MayTouch` says which token may stand right behind another one, and
`endsBefore_of_mayTouch` that the first one then ends there, whatever blanks lie between them. The
tokens of a well-formed tree may all be written side by side (`writable_tokens`): operands and
operators alternate in them, and a name with a parenthesis behind it is a call.
-/

set_option autoImplicit false
set_option relaxedAutoImplicit false

namespace ColumnFormula

/-! ### Neighbours -/

/-- Whether a token is spelled by a sign. -/
def Token.isSign : Token → Bool
  | .operator _ => true
  | .assign => true
  | .openParen => true
  | .closeParen => true
  | .comma => true
  | _ => false

/-- The first token of an operand: a literal, a reference, the name of a function or an opening
parenthesis. -/
def Token.OpensOperand (token : Token) : Prop := token.operand?.isSome ∨ token = .openParen

/-- The last token of an operand. -/
def Token.ClosesOperand (token : Token) : Prop := token.operand?.isSome ∨ token = .closeParen

/-- Whether a token may have the other one as its neighbour without a blank between them. -/
def Token.MayTouch : Token → Token → Prop
  | .number _, next => next.isSign = true
  | .boolean _, next => next.isSign = true
  | .nil, next => next.isSign = true
  | .columnIndex _, next => next.isSign = true
  | .identifier name, next =>
    next.isSign = true ∧ (isNewWord name.toList = true → next ≠ .openParen)
  | .new, next => next = .openParen
  | .operator _, next => next.OpensOperand
  | .assign, next => next.OpensOperand
  | _, _ => True

theorem Token.mayTouch_of_closesOperand {token next : Token} (h : token.ClosesOperand)
    (hsign : next.isSign = true) (hparen : next ≠ .openParen) : token.MayTouch next := by
  cases token with
  | number | boolean | nil | columnIndex => exact hsign
  | identifier name => exact ⟨hsign, fun _ ↦ hparen⟩
  | new | operator | assign => rcases h with h | h <;> cases h
  | text | columnName | openParen | closeParen | comma => trivial

/-! ### How spellings begin -/

/-- A spelling begins with the character of a sign if its token is spelled by one, and otherwise
with no such character and no blank. -/
theorem Token.SpelledBy.exists_cons {token : Token} {spelling : List Char}
    (h : token.SpelledBy spelling) :
    ∃ c tail, spelling = c :: tail ∧ isBlank c = false ∧
      (token.isSign = true ∧ c ∈ signChars ∧ (c = '(' ↔ token = .openParen) ∨
        token.isSign = false ∧ c ∉ signChars) := by
  have hfree : ∀ {c : Char}, isLiteralChar c = true → isBlank c = false ∧ c ∉ signChars := by
    intro c hc
    have hreserved := isReserved_of_isLiteralChar hc
    simp only [isReserved, Bool.or_eq_false_iff, List.contains_eq_mem,
      decide_eq_false_iff_not] at hreserved
    exact hreserved.1
  have hname : ∀ {c : Char}, isNameStart c = true → isBlank c = false ∧ c ∉ signChars :=
    fun hc ↦ hfree (isLiteralChar_of_isNameChar (isNameChar_of_isNameStart hc))
  cases h with
  | number hliteral hstart hread =>
    cases spelling with
    | nil => cases hstart
    | cons c tail =>
      have hc := hfree (hliteral c List.mem_cons_self)
      exact ⟨c, tail, rfl, hc.1, .inr ⟨rfl, hc.2⟩⟩
  | text hquote hcontent =>
    refine ⟨_, _, rfl, ?_, .inr ⟨rfl, ?_⟩⟩ <;> rcases hquote with rfl | rfl <;> decide
  | boolean value =>
    cases value
    · exact ⟨'f', _, rfl, by decide, .inr ⟨rfl, by decide⟩⟩
    · exact ⟨'t', _, rfl, by decide, .inr ⟨rfl, by decide⟩⟩
  | nil => exact ⟨'n', _, rfl, by decide, .inr ⟨rfl, by decide⟩⟩
  | identifier hword =>
    obtain ⟨c, tail, hcons, hstart⟩ := hword.exists_start
    exact ⟨c, tail, hcons, (hname hstart).1, .inr ⟨rfl, (hname hstart).2⟩⟩
  | columnName hbracket => exact ⟨'[', _, rfl, by decide, .inr ⟨rfl, by decide⟩⟩
  | columnIndex hne hdigits hsize => exact ⟨'#', _, rfl, by decide, .inr ⟨rfl, by decide⟩⟩
  | new hword =>
    cases spelling with
    | nil => cases hword
    | cons c tail =>
      have hc := hname (isNameStart_of_isNewWord hword List.mem_cons_self)
      exact ⟨c, tail, rfl, hc.1, .inr ⟨rfl, hc.2⟩⟩
  | sign hsign =>
    have hsigns : ∀ entry ∈ Token.signs, entry.1.head?.any (fun c ↦ decide (c ∈ signChars ∧
        isBlank c = false ∧ entry.2.isSign = true ∧ (c = '(' ↔ entry.2 = .openParen))) = true := by
      decide
    obtain ⟨c, hhead, hc⟩ := (Option.any_eq_true _ _).mp (hsigns _ hsign)
    obtain ⟨hc, hblank, hissign, hparen⟩ := of_decide_eq_true hc
    obtain ⟨tail, hcons⟩ := List.head?_eq_some_iff.mp hhead
    exact ⟨c, tail, hcons, hblank, .inl ⟨hissign, hc, hparen⟩⟩

theorem boundary_append {p : Char → Bool} {gap rest : List Char} {c : Char} (hgap : Blank gap)
    (hblank : ∀ b, isBlank b = true → p b = false) (hc : p c = false) :
    Boundary p (gap ++ c :: rest) := by
  intro d hd
  cases gap with
  | nil =>
    obtain rfl := Option.some.inj hd
    exact hc
  | cons b gap =>
    obtain rfl := Option.some.inj hd
    exact hblank b (hgap b List.mem_cons_self)

theorem boundary_of_blank {p : Char → Bool} {gap : List Char} (hgap : Blank gap)
    (hblank : ∀ b, isBlank b = true → p b = false) : Boundary p gap :=
  fun b hb ↦ hblank b (hgap b (List.mem_of_head? hb))

theorem opensParen_blank_append {gap : List Char} (hgap : Blank gap) (rest : List Char) :
    opensParen (gap ++ rest) = opensParen rest := by
  rw [opensParen, opensParen, List.dropWhile_append_of_pos hgap]

theorem opensParen_append {gap rest : List Char} {c : Char} (hgap : Blank gap)
    (hc : isBlank c = false) : opensParen (gap ++ c :: rest) = (c == '(') := by
  rw [opensParen_blank_append hgap, opensParen]
  simp [hc]

theorem opensParen_of_blank {gap : List Char} (hgap : Blank gap) : opensParen gap = false := by
  rw [opensParen, List.dropWhile_eq_nil_iff.mpr hgap]
  rfl

theorem isLiteralChar_of_isBlank {c : Char} (h : isBlank c = true) : isLiteralChar c = false :=
  isLiteralChar_of_isReserved (isReserved_of_isBlank h)

theorem isNameChar_of_isBlank {c : Char} (h : isBlank c = true) : isNameChar c = false :=
  isNameChar_of_isReserved (isReserved_of_isBlank h)

theorem beq_of_isBlank {c d : Char} (hc : isBlank c = false) (hd : isBlank d = true) :
    (c == d) = false := by
  rw [beq_eq_false_iff_ne]
  rintro rfl
  rw [hc] at hd
  cases hd

theorem isReserved_of_mem_signChars {c : Char} (h : c ∈ signChars) : isReserved c = true := by
  simp [isReserved, h]

/-- A token ends where its neighbour follows, with blanks between them or without. -/
theorem endsBefore_of_mayTouch {token next : Token} {gap spelling rest : List Char}
    (h : token.MayTouch next) (hgap : Blank gap) (hnext : next.SpelledBy spelling) :
    token.EndsBefore (gap ++ (spelling ++ rest)) := by
  obtain ⟨c, tail, rfl, hblank, hkind⟩ := hnext.exists_cons
  have hliteral : next.isSign = true → Boundary isLiteralChar (gap ++ (c :: tail ++ rest)) := by
    intro hsign
    obtain ⟨-, hc, -⟩ | ⟨hnosign, -⟩ := hkind
    · exact boundary_append hgap (fun _ ↦ isLiteralChar_of_isBlank)
        (isLiteralChar_of_isReserved (isReserved_of_mem_signChars hc))
    · exact absurd hsign (by simp [hnosign])
  have hname : next.isSign = true → Boundary isNameChar (gap ++ (c :: tail ++ rest)) := by
    intro hsign
    obtain ⟨-, hc, -⟩ | ⟨hnosign, -⟩ := hkind
    · exact boundary_append hgap (fun _ ↦ isNameChar_of_isBlank)
        (isNameChar_of_isReserved (isReserved_of_mem_signChars hc))
    · exact absurd hsign (by simp [hnosign])
  -- The signs that could be prolonged are prolonged by no operand.
  have hsign : next.OpensOperand → ∀ d ∈ signChars, d ≠ '(' →
      Boundary (d == ·) (gap ++ (c :: tail ++ rest)) := by
    intro hopens d hd hparen
    have hdblank : isBlank d = false := by
      have hall : ∀ d ∈ signChars, (!isBlank d) = true := List.all_eq_true.mp (by decide)
      simpa using hall d hd
    refine boundary_append hgap (fun b hb ↦ beq_of_isBlank hdblank hb) ?_
    rw [beq_eq_false_iff_ne]
    rintro rfl
    obtain ⟨hissign, -, hiff⟩ | ⟨-, hnot⟩ := hkind
    · rcases hopens with hopens | rfl
      · cases next <;> simp [Token.isSign, Token.operand?] at hissign hopens
      · exact hparen (hiff.mpr rfl)
    · exact hnot hd
  cases token with
  | number | columnIndex => exact hliteral h
  | boolean | nil => exact hname h
  | identifier name =>
    refine ⟨hname h.1, fun hnew ↦ ?_⟩
    rw [List.cons_append, opensParen_append hgap hblank, beq_eq_false_iff_ne]
    intro hc
    obtain ⟨-, -, hiff⟩ | ⟨hnosign, -⟩ := hkind
    · exact h.2 hnew (hiff.mp hc)
    · exact absurd h.1 (by simp [hnosign])
  | new =>
    obtain rfl : next = .openParen := h
    refine ⟨hname rfl, ?_⟩
    obtain ⟨-, -, hiff⟩ | ⟨hnosign, -⟩ := hkind
    · rw [List.cons_append, opensParen_append hgap hblank, hiff.mpr rfl]
      rfl
    · cases hnosign
  | operator op =>
    cases op with
    | comparison op =>
      cases op with
      | less | greater => exact hsign h '=' (by decide) (by decide)
      | _ => trivial
    | concat => exact hsign h '&' (by decide) (by decide)
    | _ => trivial
  | assign => exact hsign h '=' (by decide) (by decide)
  | text | columnName | openParen | closeParen | comma => trivial

/-- A token ends in front of a text that goes on with no class of characters except blanks; whether
the word `new` is a keyword or a name is decided by the parenthesis that follows or does not. -/
theorem endsBefore_of_boundary {token : Token} {rest : List Char}
    (hboundary : ∀ p : Char → Bool, (∀ c, isBlank c = true → p c = false) → Boundary p rest)
    (hnew : token = .new → opensParen rest = true)
    (hidentifier : ∀ name, token = .identifier name → isNewWord name.toList = true →
      opensParen rest = false) : token.EndsBefore rest := by
  have hliteral := hboundary isLiteralChar fun _ ↦ isLiteralChar_of_isBlank
  have hname := hboundary isNameChar fun _ ↦ isNameChar_of_isBlank
  have hequal := hboundary ('=' == ·) fun _ ↦ beq_of_isBlank (by decide)
  have hand := hboundary ('&' == ·) fun _ ↦ beq_of_isBlank (by decide)
  cases token with
  | number | columnIndex => exact hliteral
  | boolean | nil => exact hname
  | identifier name => exact ⟨hname, hidentifier name rfl⟩
  | new => exact ⟨hname, hnew rfl⟩
  | operator op =>
    cases op with
    | comparison op =>
      cases op with
      | less | greater => exact hequal
      | _ => trivial
    | concat => exact hand
    | _ => trivial
  | assign => exact hequal
  | text | columnName | openParen | closeParen | comma => trivial

/-- Every token but the word `NEW` may be the last one. -/
theorem endsBefore_of_blank {token : Token} {gap : List Char} (h : token ≠ .new)
    (hgap : Blank gap) : token.EndsBefore gap :=
  endsBefore_of_boundary (fun _ hp ↦ boundary_of_blank hgap hp) (fun hnew ↦ absurd hnew h)
    (fun _ _ _ ↦ opensParen_of_blank hgap)

/-! ### Lists of tokens -/

/-- Tokens that can be written one after another, with blanks between them or without. -/
structure Writable (tokens : List Token) : Prop where
  wellFormed : ∀ token ∈ tokens, token.WellFormed
  touch : tokens.IsChain Token.MayTouch
  last_ne_new : .new ∉ tokens.getLast?

/-- Tokens that can be written and begin and end like an operand. -/
structure FormsOperand (tokens : List Token) : Prop extends Writable tokens where
  opens : ∃ first ∈ tokens.head?, first.OpensOperand
  closes : ∃ last ∈ tokens.getLast?, last.ClosesOperand

namespace FormsOperand

variable {ts us : List Token}

theorem single {token : Token} (hoperand : token.operand?.isSome) (hwell : token.WellFormed) :
    FormsOperand [token] where
  wellFormed := by simpa using hwell
  touch := .singleton token
  last_ne_new := by
    rintro hlast
    obtain rfl := Option.some.inj hlast
    cases hoperand
  opens := ⟨token, rfl, .inl hoperand⟩
  closes := ⟨token, rfl, .inl hoperand⟩

/-- Two operands with a sign between them. -/
theorem join {sign : Token} (hts : FormsOperand ts) (hus : FormsOperand us)
    (hsign : sign.isSign = true) (hparen : sign ≠ .openParen)
    (htouch : ∀ next : Token, next.OpensOperand → sign.MayTouch next) :
    FormsOperand (ts ++ sign :: us) := by
  obtain ⟨first, hfirst, hopens⟩ := hts.opens
  obtain ⟨last, hlast, hcloses⟩ := hts.closes
  obtain ⟨second, hsecond, hsecondOpens⟩ := hus.opens
  obtain ⟨final, hfinal, hfinalCloses⟩ := hus.closes
  have hwell : sign.WellFormed := by cases sign <;> trivial
  have hend : (ts ++ sign :: us).getLast? = us.getLast? := by
    have hne : us ≠ [] := fun hnil ↦ by rw [hnil] at hsecond; cases hsecond
    rw [List.getLast?_append_of_ne_nil _ (List.cons_ne_nil _ _), List.getLast?_cons_of_ne_nil hne]
  refine ⟨⟨?_, ?_, ?_⟩, ?_, ?_⟩
  · intro token htoken
    rcases List.mem_append.mp htoken with htoken | htoken
    · exact hts.wellFormed token htoken
    · rcases List.mem_cons.mp htoken with rfl | htoken
      · exact hwell
      · exact hus.wellFormed token htoken
  · refine hts.touch.append (hus.touch.cons fun next hnext ↦ ?_) fun x hx y hy ↦ ?_
    · obtain rfl := Option.mem_unique hnext hsecond
      exact htouch next hsecondOpens
    · obtain rfl := Option.mem_unique hx hlast
      obtain rfl := Option.some.inj hy
      exact Token.mayTouch_of_closesOperand hcloses hsign hparen
  · rw [hend]
    exact hus.last_ne_new
  · exact ⟨first, List.mem_head?_append_of_mem_head? hfirst, hopens⟩
  · rw [hend]
    exact ⟨final, hfinal, hfinalCloses⟩

/-- Tokens in parentheses, also none. -/
theorem inParentheses (h : ts = [] ∨ FormsOperand ts) : FormsOperand (parenthesized ts) := by
  have hclose : (parenthesized ts).getLast? = some Token.closeParen := by
    rw [parenthesized, ← List.cons_append, List.getLast?_concat]
  have hne : Token.closeParen ≠ .openParen := nofun
  have htouch : (ts ++ [Token.closeParen]).IsChain Token.MayTouch := by
    rcases h with rfl | h
    · exact .singleton _
    · refine h.touch.append (.singleton _) fun x hx y hy ↦ ?_
      obtain ⟨last, hlast, hcloses⟩ := h.closes
      obtain rfl := Option.mem_unique hx hlast
      obtain rfl := Option.some.inj hy
      exact Token.mayTouch_of_closesOperand hcloses rfl hne
  refine ⟨⟨?_, htouch.cons (x := Token.openParen) fun _ _ ↦ trivial, ?_⟩,
    ⟨.openParen, rfl, .inr rfl⟩, ?_⟩
  · intro token htoken
    rcases List.mem_cons.mp htoken with rfl | htoken
    · trivial
    · rcases List.mem_append.mp htoken with htoken | htoken
      · rcases h with rfl | h
        · cases htoken
        · exact h.wellFormed token htoken
      · obtain rfl := List.mem_singleton.mp htoken
        trivial
  · rw [hclose]
    exact nofun
  · exact ⟨.closeParen, hclose, .inr rfl⟩

theorem call {name : String} (hname : IsName name.toList) (hnew : isNewWord name.toList = false)
    (h : ts = [] ∨ FormsOperand ts) : FormsOperand (.identifier name :: parenthesized ts) := by
  have hparentheses := inParentheses h
  have htouch : (Token.identifier name).MayTouch .openParen :=
    ⟨rfl, fun hnew' ↦ absurd hnew' (by simp [hnew])⟩
  refine ⟨⟨?_, ?_, ?_⟩, ⟨.identifier name, rfl, .inl rfl⟩, ?_⟩
  · intro token htoken
    rcases List.mem_cons.mp htoken with rfl | htoken
    · exact hname
    · exact hparentheses.wellFormed token htoken
  · exact hparentheses.touch.cons fun next hnext ↦ Option.some.inj hnext ▸ htouch
  · exact hparentheses.last_ne_new
  · exact hparentheses.closes

end FormsOperand

/-! ### The tokens of trees and statements -/

theorem formsOperand_asOperand {e : Expr Reference} (h : FormsOperand e.tokens) :
    FormsOperand (e.asOperand e.tokens) := by
  unfold Expr.asOperand
  split
  · exact .inParentheses (.inr h)
  · exact h

theorem formsOperand_chainTokens {first : Expr Reference} {rest : List (Expr Reference)}
    {operators : List Comparison} (hlength : rest.length = operators.length)
    (h : ∀ e ∈ first :: rest, FormsOperand e.tokens) :
    FormsOperand (Expr.chainTokens (first :: rest) operators) := by
  have hfirst := formsOperand_asOperand (h first List.mem_cons_self)
  induction rest generalizing first operators with
  | nil =>
    obtain rfl := List.length_eq_zero_iff.mp hlength.symm
    exact hfirst
  | cons second rest ih =>
    obtain ⟨op, operators, rfl⟩ := List.exists_cons_of_length_eq_add_one hlength.symm
    have hrest : ∀ e ∈ second :: rest, FormsOperand e.tokens :=
      fun e he ↦ h e (List.mem_cons_of_mem first he)
    have hsecond := formsOperand_asOperand (hrest second List.mem_cons_self)
    exact hfirst.join (ih (by simpa using hlength) hrest hsecond) rfl nofun fun _ hnext ↦ hnext

theorem formsOperand_argumentTokens {e : Expr Reference} {rest : List (Expr Reference)}
    (h : ∀ arg ∈ e :: rest, FormsOperand arg.tokens) :
    FormsOperand (Expr.argumentTokens (e :: rest)) := by
  induction rest generalizing e with
  | nil => exact h e List.mem_cons_self
  | cons second rest ih =>
    exact (h e List.mem_cons_self).join (ih fun arg harg ↦ h arg (List.mem_cons_of_mem e harg))
      rfl nofun fun _ _ ↦ trivial

theorem formsOperand_reference {column : Reference} (h : column.WellFormed) :
    FormsOperand [column.token] := by
  cases column with
  | identifier name => exact .single rfl h
  | columnName name => exact .single rfl h
  | columnIndex index => exact .single rfl h
  | bound column => exact h.elim

/-- The tokens of a well-formed tree can be written and form an operand. -/
theorem formsOperand_tokens (e : Expr Reference) (h : e.WellFormed) : FormsOperand e.tokens := by
  induction hdepth : e.depth using Nat.strong_induction_on generalizing e with
  | _ depth ih =>
    subst hdepth
    have hchild : ∀ child ∈ e.children, child.WellFormed → FormsOperand child.tokens :=
      fun child hmem hwell ↦ ih child.depth (Expr.depth_lt_of_mem_children hmem) child hwell rfl
    cases e with
    | number value => exact .single rfl h
    | text content => exact .single rfl h
    | boolean value => exact .single rfl h
    | nil => exact .single rfl h
    | reference column => exact formsOperand_reference h
    | binary op left right =>
      have hleft := formsOperand_asOperand (hchild left (by simp [Expr.children]) h.1)
      have hright := formsOperand_asOperand (hchild right (by simp [Expr.children]) h.2)
      exact hleft.join hright rfl (by simp) fun _ hnext ↦ hnext
    | chain operands operators =>
      obtain ⟨-, hlength, hwell⟩ := h
      obtain ⟨first, rest, rfl⟩ := List.exists_cons_of_length_eq_add_one hlength
      exact formsOperand_chainTokens (by simpa using hlength) fun child hmem ↦
        hchild child hmem (Expr.allWellFormed_iff.mp hwell child hmem)
    | call name args =>
      obtain ⟨hname, hnew, hwell⟩ := h
      cases args with
      | nil => exact .call hname hnew (.inl rfl)
      | cons arg rest =>
        exact .call hname hnew (.inr (formsOperand_argumentTokens fun child hmem ↦
          hchild child hmem (Expr.allWellFormed_iff.mp hwell child hmem)))

theorem tokens_ne_nil {statement : Statement Reference} (h : statement.WellFormed) :
    statement.tokens ≠ [] := by
  cases statement with
  | expression value =>
    obtain ⟨first, hfirst, -⟩ := (formsOperand_tokens value h).opens
    exact List.ne_nil_of_mem (List.mem_of_head? hfirst)
  | assign target value => exact List.cons_ne_nil _ _
  | newColumn name value => exact List.cons_ne_nil _ _

/-- The tokens of a well-formed statement can be written. -/
theorem writable_tokens {statement : Statement Reference} (h : statement.WellFormed) :
    Writable statement.tokens := by
  cases statement with
  | expression value => exact (formsOperand_tokens value h).toWritable
  | assign target value =>
    have hjoin : FormsOperand ([target.token] ++ .assign :: value.tokens) :=
      (formsOperand_reference h.1).join (formsOperand_tokens value h.2) rfl nofun
        fun _ hnext ↦ hnext
    exact hjoin.toWritable
  | newColumn name value =>
    have hname : FormsOperand [.text name] := .single rfl h.1
    have hjoin : FormsOperand (parenthesized [.text name] ++ .assign :: value.tokens) :=
      (FormsOperand.inParentheses (.inr hname)).join (formsOperand_tokens value h.2) rfl nofun
        fun _ hnext ↦ hnext
    refine ⟨?_, ?_, ?_⟩
    · intro token htoken
      rcases List.mem_cons.mp htoken with rfl | htoken
      · trivial
      · exact hjoin.wellFormed token htoken
    · exact hjoin.touch.cons (x := Token.new) fun next hnext ↦ (Option.some.inj hnext).symm
    · exact hjoin.last_ne_new

end ColumnFormula
