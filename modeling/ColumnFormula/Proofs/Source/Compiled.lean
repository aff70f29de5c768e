import ColumnFormula.Proofs.Number.Magnitude
import ColumnFormula.Proofs.Source.Separation
import ColumnFormula.Proofs.Source.Tokens

/-!
# What compiled formulas are made of

Whatever compiles gives a tree in which every node is as the binder and the evaluator expect it:
numbers are numbers and carry no sign, texts and names can be quoted, nothing is bound yet, a chain
has one operand more than it has comparisons and at least three, and no tree has more than 200
levels (`compile_sound`). The lexer gives this for single tokens, because each of them has a
spelling, and for calls, because it makes no name of the word `new` before an opening parenthesis
(`lexed_of_tokens?`). The grammar passes it on: a derivation puts together trees of its parts, each
of which stands for tokens next to each other (`Derives.sound`).
-/

set_option autoImplicit false
set_option relaxedAutoImplicit false

namespace ColumnFormula

/-! ### Sound trees -/

namespace Expr

/-- The root of a tree is as a formula can have it. A number may be infinite, since a literal may
have any number of digits. The operators of a chain are comparisons by their type. -/
def SoundRoot : Expr Reference → Prop
  | .number value => value ≠ .nan ∧ value.isNegative = false
  | .text content => Quotable content
  | .reference column => column.WellFormed
  | .chain operands operators =>
    3 ≤ operands.length ∧ operands.length = operators.length + 1
  | .call name _ => IsName name.toList ∧ isNewWord name.toList = false
  | _ => True

/-- All nodes of a tree are as a formula can have them. -/
def Sound (e : Expr Reference) : Prop := ∀ part : Expr Reference, part.IsPart e → part.SoundRoot

theorem sound_of_children {e : Expr Reference} (hroot : e.SoundRoot)
    (hchildren : ∀ child ∈ e.children, child.Sound) : e.Sound := by
  intro part hpart
  cases hpart with
  | refl => exact hroot
  | child hmem hpart => exact hchildren _ hmem part hpart

theorem sound_of_leaf {e : Expr Reference} (hroot : e.SoundRoot) (hleaf : e.children = []) :
    e.Sound := by
  refine sound_of_children hroot ?_
  rw [hleaf]
  exact fun child hmem ↦ absurd hmem List.not_mem_nil

theorem sound_binary {op : BinaryOp} {left right : Expr Reference} (hleft : left.Sound)
    (hright : right.Sound) : (Expr.binary op left right).Sound :=
  sound_of_children trivial (by simp [children, hleft, hright])

end Expr

/-! ### What the lexer promises -/

/-- Tokens that may stand next to each other in a text: each of them has a spelling, and before an
opening parenthesis no name is the word `new`. -/
structure Lexed (tokens : List Token) : Prop where
  spelled : ∀ token ∈ tokens, ∃ spelling, token.SpelledBy spelling
  not_new : ∀ name : String, [.identifier name, .openParen] <:+: tokens →
    isNewWord name.toList = false

theorem Lexed.of_infix {part tokens : List Token} (h : Lexed tokens) (hpart : part <:+: tokens) :
    Lexed part where
  spelled token hmem := h.spelled token (hpart.subset hmem)
  not_new name hname := h.not_new name (hname.trans hpart)

theorem Lexed.left {ts us : List Token} (h : Lexed (ts ++ us)) : Lexed ts :=
  h.of_infix (List.prefix_append ts us).isInfix

theorem Lexed.right {ts us : List Token} (h : Lexed (ts ++ us)) : Lexed us :=
  h.of_infix (List.suffix_append ts us).isInfix

theorem Lexed.tail {token : Token} {ts : List Token} (h : Lexed (token :: ts)) : Lexed ts :=
  h.of_infix (List.suffix_cons token ts).isInfix

/-- Signs are no operands. -/
theorem operand?_of_mem_signs {sign : List Char} {token : Token}
    (h : (sign, token) ∈ Token.signs) : token.operand? = none := by
  have hsigns : ∀ entry ∈ Token.signs, entry.2.operand?.isNone = true := by decide
  exact Option.isNone_iff_eq_none.mp (hsigns _ h)

/-- An opening parenthesis is the first token only of a text that begins with one behind blanks. -/
theorem exists_of_tokens?_openParen {cs : List Char} {tokens : List Token}
    (h : tokens? cs = some (.openParen :: tokens)) :
    ∃ gap after, cs = gap ++ '(' :: after ∧ Blank gap := by
  cases cs using readingInduction with
  | blank gap hgap =>
    rw [tokens?_blank hgap] at h
    cases h
  | fault gap c rest fault hgap hc hread =>
    rw [tokens?_fault hgap hc hread] at h
    cases h
  | token gap c tail rest token hgap hc hread =>
    rw [tokens?_token hgap hc hread] at h
    obtain ⟨others, -, hothers⟩ := Option.map_eq_some_iff.mp h
    obtain ⟨rfl, rfl⟩ := List.cons.inj hothers
    have hparen : ∀ entry ∈ Token.signs, entry.2 = .openParen → entry.1 = ['('] := by decide
    cases spelledBy_of_readToken hread with
    | sign hsign =>
      obtain ⟨rfl, rfl⟩ := List.cons.inj (hparen _ hsign rfl)
      exact ⟨gap, rest, rfl, hgap⟩

/-- Before an opening parenthesis the lexer reads no name that is the word `new`. -/
theorem isNewWord_eq_false_of_readToken {c : Char} {tail rest : List Char} {name : String}
    {tokens : List Token}
    (hread : readToken c (tail ++ rest) = ⟨.ok (.identifier name), (c :: tail).length⟩)
    (hrest : tokens? rest = some (.openParen :: tokens)) : isNewWord name.toList = false := by
  obtain ⟨gap, after, rfl, hgap⟩ := exists_of_tokens?_openParen hrest
  have hend : Boundary isNameChar (gap ++ '(' :: after) :=
    boundary_append hgap (fun _ ↦ isNameChar_of_isBlank) (by decide +kernel)
  have hopens : opensParen (gap ++ '(' :: after) = true := by
    rw [opensParen_append hgap (by decide)]
    rfl
  have hspelled := spelledBy_of_readToken hread
  generalize hspelling : c :: tail = spelling at hspelled
  cases hspelled with
  | identifier hname =>
    obtain ⟨⟨d, others, hcons, hstart⟩, hchars, hkeyword⟩ := hname
    obtain ⟨rfl, rfl⟩ := List.cons.inj (hspelling.trans hcons)
    rw [← hspelling] at hchars hkeyword ⊢
    rw [readToken_word hstart hchars hend, wordToken_of_not_keyword hkeyword, hopens,
      Bool.and_true] at hread
    by_contra hnew
    rw [if_pos (by simpa using hnew)] at hread
    cases hread
  | sign hsign =>
    have hnone := operand?_of_mem_signs hsign
    cases hnone

/-- The tokens of a text. -/
theorem lexed_of_tokens? {cs : List Char} {tokens : List Token} (h : tokens? cs = some tokens) :
    Lexed tokens := by
  induction cs using readingInduction generalizing tokens with
  | blank gap hgap =>
    rw [tokens?_blank hgap] at h
    obtain rfl := Option.some.inj h
    refine ⟨fun token hmem ↦ absurd hmem List.not_mem_nil, fun name hname ↦ ?_⟩
    cases List.infix_nil.mp hname
  | fault gap c rest fault hgap hc hread =>
    rw [tokens?_fault hgap hc hread] at h
    cases h
  | token gap c tail rest token hgap hc hread ih =>
    rw [tokens?_token hgap hc hread] at h
    obtain ⟨others, hothers, rfl⟩ := Option.map_eq_some_iff.mp h
    have hrest := ih hothers
    refine ⟨List.forall_mem_cons.mpr ⟨⟨_, spelledBy_of_readToken hread⟩, hrest.spelled⟩, ?_⟩
    intro name hname
    rcases List.infix_cons_iff.mp hname with hfront | hbehind
    · -- The name is the token just read, and the rest of the text begins with the parenthesis.
      obtain ⟨rfl, hparen⟩ := List.cons_prefix_cons.mp hfront
      obtain ⟨behind, rfl⟩ := hparen
      exact isNewWord_eq_false_of_readToken hread hothers
    · exact hrest.not_new name hbehind

/-! ### Tokens as nodes -/

/-- A literal or a reference is as its spelling allows. -/
theorem Token.SpelledBy.soundRoot {token : Token} {spelling : List Char} {e : Expr Reference}
    (h : token.SpelledBy spelling) (he : token.operand? = some e) : e.SoundRoot := by
  cases h with
  | @number literal numeral hliteral hstart hread =>
    obtain rfl := Option.some.inj he
    show Numeral.toBinary64 false numeral ≠ .nan ∧ _
    rw [Numeral.toBinary64, Binary64.ofDecimal_eq_ofMagnitude]
    exact ⟨Binary64.ofMagnitude_ne_nan false _, Binary64.isNegative_ofMagnitude false _⟩
  | @text quote content hquote hcontent =>
    obtain rfl := Option.some.inj he
    rcases hquote with rfl | rfl
    · exact .inl hcontent
    · exact .inr hcontent
  | boolean | nil =>
    obtain rfl := Option.some.inj he
    exact trivial
  | identifier hname | columnName hname =>
    obtain rfl := Option.some.inj he
    exact hname
  | columnIndex hne hdigits hsize =>
    obtain rfl := Option.some.inj he
    exact hsize
  | new => cases he
  | sign hsign =>
    rw [operand?_of_mem_signs hsign] at he
    cases he

theorem Lexed.soundRoot {token : Token} {ts : List Token} (h : Lexed (token :: ts))
    {e : Expr Reference} (he : token.operand? = some e) : e.SoundRoot := by
  obtain ⟨spelling, hspelled⟩ := h.spelled token List.mem_cons_self
  exact hspelled.soundRoot he

/-- The target of an assignment is a reference as it is written. -/
theorem Lexed.target_wellFormed {token : Token} {ts : List Token} (h : Lexed (token :: ts))
    {target : Reference} (htarget : Parse.reference? token = some target) : target.WellFormed := by
  have hoperand : token.operand? = some (.reference target) := by
    cases token with
    | identifier | columnName | columnIndex =>
      obtain rfl := Option.some.inj htarget
      rfl
    | _ => cases htarget
  exact h.soundRoot hoperand

/-- The name of a call is a name. -/
theorem Lexed.soundRoot_call {name : String} {ts : List Token}
    (h : Lexed (.identifier name :: .openParen :: ts)) (args : List (Expr Reference)) :
    (Expr.call name args).SoundRoot :=
  ⟨h.soundRoot (e := .reference (.identifier name)) rfl,
    h.not_new name (List.prefix_append [_, _] ts).isInfix⟩

/-! ### Derivations -/

/-- The trees of a phrase are sound. -/
def Phrase.Sound : Phrase → Prop
  | .level _ tree => tree.Sound
  | .links _ rights => ∀ link ∈ rights, link.2.Sound
  | .unary tree => tree.Sound
  | .primary tree => tree.Sound
  | .arguments trees => ∀ tree ∈ trees, tree.Sound

theorem Precedence.sound_operand {level : Precedence} {e : Expr Reference} :
    (level.operand e).Sound ↔ e.Sound := by
  cases level <;> rfl

theorem sound_leftTree {first : Expr Reference} {links : List Link} (hfirst : first.Sound)
    (hlinks : ∀ link ∈ links, link.2.Sound) : (leftTree first links).Sound := by
  induction links generalizing first with
  | nil => exact hfirst
  | cons link rest ih =>
    obtain ⟨hlink, hrest⟩ := List.forall_mem_cons.mp hlinks
    exact ih (Expr.sound_binary hfirst hlink) hrest

/-- Chains are made of two comparisons at least. -/
theorem sound_comparisonTree {first : Expr Reference} {links : List (Comparison × Expr Reference)}
    (hfirst : first.Sound) (hlinks : ∀ link ∈ links, link.2.Sound) :
    (comparisonTree first links).Sound := by
  match links with
  | [] => exact hfirst
  | [(op, right)] => exact Expr.sound_binary hfirst (hlinks _ List.mem_cons_self)
  | one :: two :: rest =>
    refine Expr.sound_of_children ⟨?_, ?_⟩ (List.forall_mem_cons.mpr ⟨hfirst, ?_⟩)
    · simp
    · simp
    · exact List.forall_mem_map.mpr hlinks

/-- Every tree of a derivation is sound: its nodes are tokens or are put together by the
grammar. -/
theorem Derives.sound {phrase : Phrase} {ts : List Token} {n : Nat} (h : Derives phrase ts n)
    (hlexed : Lexed ts) : phrase.Sound := by
  induction h with
  | leftAssociative hlevel hfirst hlinks ihfirst ihlinks =>
    exact sound_leftTree (Precedence.sound_operand.mp (ihfirst hlexed.left)) (ihlinks hlexed.right)
  | comparison hfirst hlinks ihfirst ihlinks =>
    have htrees := List.forall_mem_map.mp (ihlinks hlexed.right)
    exact sound_comparisonTree (ihfirst hlexed.left) htrees
  | noLink => exact fun link hmem ↦ absurd hmem List.not_mem_nil
  | link hop hright hlinks ihright ihlinks =>
    exact List.forall_mem_cons.mpr
      ⟨Precedence.sound_operand.mp (ihright hlexed.tail.left), ihlinks hlexed.tail.right⟩
  | minus h ih =>
    have hzero : (Expr.number (.zero false) : Expr Reference).Sound :=
      Expr.sound_of_leaf ⟨nofun, rfl⟩ rfl
    exact Expr.sound_binary hzero (ih hlexed.tail)
  | primary h ih => exact ih hlexed
  | @single token e h =>
    have hleaf : e.children = [] := by
      cases token <;> cases h <;> rfl
    exact Expr.sound_of_leaf (hlexed.soundRoot h) hleaf
  | callEmpty => exact Expr.sound_of_leaf (hlexed.soundRoot_call []) rfl
  | call h ih =>
    exact Expr.sound_of_children (hlexed.soundRoot_call _) (ih hlexed.tail.tail.left)
  | parentheses h ih => exact ih hlexed.tail.left
  | lastArgument h ih => exact List.forall_mem_singleton.mpr (ih hlexed)
  | argument hfirst hrest ihfirst ihrest =>
    exact List.forall_mem_cons.mpr ⟨ihfirst hlexed.left, ihrest hlexed.right.tail⟩

/-! ### Compiled texts -/

/-- A tree as the compiler makes it: every part is sound and has at most 200 levels. -/
def Expr.IsCompiled (e : Expr Reference) : Prop :=
  ∀ part : Expr Reference, part.IsPart e → part.depth ≤ 200 ∧ part.SoundRoot

/-- A statement as the compiler makes it. -/
def Statement.IsCompiled : Statement Reference → Prop
  | .expression value => value.IsCompiled
  | .assign target value => target.WellFormed ∧ value.IsCompiled
  | .newColumn name value => Quotable name ∧ value.IsCompiled

theorem Expr.Sound.isCompiled {e : Expr Reference} (h : e.Sound) (hdepth : e.depth ≤ 200) :
    e.IsCompiled :=
  fun part hpart ↦ ⟨hpart.depth_le.trans hdepth, h part hpart⟩

theorem DerivesStatement.isCompiled {statement : Statement Reference} {ts : List Token} {n : Nat}
    (h : DerivesStatement statement ts n) (hlexed : Lexed ts)
    (hdepth : statement.value.depth ≤ 200) : statement.IsCompiled := by
  cases h with
  | expression h =>
    have hvalue := h.sound hlexed
    exact hvalue.isCompiled hdepth
  | assign htarget h =>
    have hvalue := h.sound hlexed.tail.tail
    exact ⟨hlexed.target_wellFormed htarget, hvalue.isCompiled hdepth⟩
  | @newColumn name e ts n h =>
    have hvalue := h.sound hlexed.tail.tail.tail.tail.tail
    have hname := hlexed.tail.tail.soundRoot (e := .text name) rfl
    exact ⟨hname, hvalue.isCompiled hdepth⟩

theorem isCompiled_of_compileStatement {text : String} {statement : Statement Reference}
    (h : compileStatement text = .ok statement) : statement.IsCompiled := by
  rw [← String.ofList_toList (s := text)] at h
  obtain ⟨tokens, n, htokens, hderives, -, hdepth⟩ := compileStatement_eq_ok_iff.mp h
  exact hderives.isCompiled (lexed_of_tokens? htokens) hdepth

/-- Whatever a text compiles to is well formed, as an expression, as a statement and as a script.
Every subexpression has at most 200 levels; chains have at least three operands and a comparison
between any two; no column is bound; numbers are neither not-a-number nor negative, not even a
negative zero; texts lack one of the quotes and column names the closing bracket; names are names
and no literals, and no function is called `new` in any letter case; and the target of an assignment
is written as a reference. -/
theorem compile_sound (text : String) :
    (∀ e, compileExpression text = .ok e → e.IsCompiled) ∧
    (∀ statement, compileStatement text = .ok statement → statement.IsCompiled) ∧
    ∀ statements, compileScript text = .ok statements →
      ∀ statement ∈ statements, statement.IsCompiled := by
  refine ⟨fun e h ↦ ?_, fun statement h ↦ isCompiled_of_compileStatement h,
    fun statements h statement hmem ↦ ?_⟩
  · rw [← String.ofList_toList (s := text)] at h
    obtain ⟨tokens, n, htokens, hderives, -, hdepth⟩ := compileExpression_eq_ok_iff.mp h
    have hsound := hderives.sound (lexed_of_tokens? htokens)
    exact hsound.isCompiled hdepth
  · have hcompiled := compileStatements_eq_ok_iff.mp h
    obtain ⟨place, rfl⟩ := List.mem_iff_get.mp hmem
    have hplace : place.1 < (splitStatements text).length := by
      rw [hcompiled.length_eq]
      exact place.2
    exact isCompiled_of_compileStatement (hcompiled.get hplace place.2)

/-- A chain of comparisons, and a script with each kind of statement. -/
theorem compile_sound_chain :
    (∃ e, compileExpression "-1 < F([a], 'x') <= #3" = .ok e ∧ e.IsCompiled) ∧
    (∃ statement, compileStatement "[a b] = new & 1" = .ok statement ∧
      statement.IsCompiled) ∧
    ∃ statements, compileScript "NEW('a\"b') = nil; B = Nil < 2 < 3; -0" = .ok statements ∧
      ∀ statement ∈ statements, statement.IsCompiled := by
  obtain ⟨e, he⟩ : ∃ e, compileExpression "-1 < F([a], 'x') <= #3" = .ok e :=
    exists_of_isSome_toOption (by decide +kernel)
  obtain ⟨statement, hstatement⟩ : ∃ statement,
      compileStatement "[a b] = new & 1" = .ok statement :=
    exists_of_isSome_toOption (by decide +kernel)
  obtain ⟨statements, hstatements⟩ : ∃ statements,
      compileScript "NEW('a\"b') = nil; B = Nil < 2 < 3; -0" = .ok statements :=
    exists_of_isSome_toOption (by decide +kernel)
  exact ⟨⟨e, he, (compile_sound _).1 e he⟩,
    ⟨statement, hstatement, (compile_sound _).2.1 statement hstatement⟩,
    ⟨statements, hstatements, (compile_sound _).2.2 statements hstatements⟩⟩

end ColumnFormula
