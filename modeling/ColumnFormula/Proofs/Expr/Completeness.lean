import ColumnFormula.Proofs.Expr.ReaderSteps

/-!
# What is derived the reader decides

The converse of soundness. Tokens that derive a tree within the limits are read as that tree, and
reading stops right behind them; past the limits they are refused for their depth and for no other
reason (`Parse.Decides`). Both go through the levels in one induction, since a reader steps over the
parts that are within the limits and stops in the first one that is not (`Parse.Decided.bind`). What
may follow the tokens is part of the statement. A level must not be followed by an operator that it
would go on with, nor by an opening parenthesis, which would turn a word into a call (`StopsAt`).
Links end where the next tighter level stops, so the condition passes from a level to its operands
(`StopsAt.links`).
-/

set_option autoImplicit false
set_option relaxedAutoImplicit false

namespace ColumnFormula

/-! ### Heights of subtrees -/

theorem depth_le_leftTree (links : List Link) :
    ∀ first : Expr Reference, first.depth ≤ (leftTree first links).depth := by
  induction links with
  | nil => exact fun first ↦ Nat.le_refl _
  | cons link rest ih =>
    intro first
    have hchild : first.depth < (Expr.binary link.1 first link.2).depth :=
      Expr.depth_lt_of_mem_children (by simp [Expr.children])
    exact Nat.le_trans (Nat.le_of_lt hchild) (ih _)

/-- The operands of comparisons in a row are no higher than the tree made of them. -/
theorem depth_le_comparisonTree (first : Expr Reference)
    (links : List (Comparison × Expr Reference)) :
    first.depth ≤ (comparisonTree first links).depth ∧
      ∀ link ∈ links, link.2.depth ≤ (comparisonTree first links).depth := by
  match links with
  | [] => exact ⟨Nat.le_refl _, nofun⟩
  | [(op, right)] =>
    have hchild : ∀ e ∈ [first, right], e.depth ≤ (comparisonTree first [(op, right)]).depth :=
      fun e he ↦ Nat.le_of_lt (Expr.depth_lt_of_mem_children he)
    refine ⟨hchild _ (by simp), fun link hlink ↦ ?_⟩
    obtain rfl := List.mem_singleton.mp hlink
    exact hchild _ (by simp)
  | (op, right) :: second :: rest =>
    have hchild : ∀ e ∈ first :: ((op, right) :: second :: rest).map Prod.snd,
        e.depth ≤ (comparisonTree first ((op, right) :: second :: rest)).depth :=
      fun e he ↦ Nat.le_of_lt (Expr.depth_lt_of_mem_children he)
    refine ⟨hchild _ List.mem_cons_self, fun link hlink ↦ ?_⟩
    exact hchild _ (List.mem_cons_of_mem _ (List.mem_map_of_mem hlink))

/-! ### What may follow -/

/-- A token, or the end, that no level of the given rank or a later one goes on with. -/
def StopsAt (rank : Nat) (next : Option Token) : Prop :=
  next ≠ some .openParen ∧ ∀ op, next = some (.operator op) → op.precedence.rank < rank

theorem StopsAt.mono {first second : Nat} {next : Option Token} (h : StopsAt first next)
    (hle : first ≤ second) : StopsAt second next :=
  ⟨h.1, fun op hop ↦ Nat.lt_of_lt_of_le (h.2 op hop) hle⟩

theorem stopsAt_closeParen (rank : Nat) : StopsAt rank (some .closeParen) := ⟨nofun, nofun⟩

theorem stopsAt_comma (rank : Nat) : StopsAt rank (some .comma) := ⟨nofun, nofun⟩

theorem stopsAt_assign (rank : Nat) : StopsAt rank (some .assign) := ⟨nofun, nofun⟩

theorem stopsAt_none (rank : Nat) : StopsAt rank none := ⟨nofun, nofun⟩

/-- An operand of a level stops where the links of the level begin or end. -/
theorem StopsAt.links {level : Precedence} {links : List Link} {t : ParserState}
    {read : List LocatedToken} {n : Nat} (h : StopsAt level.rank t.current?)
    (hderives : Derives (.links level links) (read.map LocatedToken.token) n) :
    StopsAt (level.rank + 1) (t.before read).current? := by
  generalize htokens : read.map LocatedToken.token = tokens at hderives
  cases hderives with
  | noLink =>
    obtain rfl := List.map_eq_nil_iff.mp htokens
    exact h.mono (Nat.le_succ _)
  | link hop hright hlinks =>
    obtain ⟨located, behind, rfl, hlocated, -⟩ := List.map_eq_cons_iff.mp htokens
    rw [ParserState.current?_before_cons, hlocated]
    refine ⟨nofun, ?_⟩
    rintro op ⟨⟩
    rw [hop]
    exact Nat.lt_succ_self _

theorem length_links_le {level : Precedence} {links : List Link} :
    ∀ {tokens : List Token} {n : Nat}, Derives (.links level links) tokens n →
      links.length ≤ tokens.length := by
  induction links with
  | nil => exact fun _ ↦ Nat.zero_le _
  | cons link rest ih =>
    intro tokens n h
    cases h with
    | link hop hright hlinks =>
      have hrest := ih hlinks
      simp only [List.length_cons, List.length_append]
      omega

theorem Token.StartsOperand.ne_sign {token : Token} (h : token.StartsOperand) :
    token ≠ .comma ∧ token ≠ .closeParen ∧ token ≠ .new := by
  refine ⟨?_, ?_, ?_⟩ <;> rintro rfl <;> simp [Token.StartsOperand, Token.operand?] at h

namespace Parse

variable {α β : Type}

/-! ### Reading within the limits, refusing past them -/

/-- The reader has stopped because a limit was passed. -/
def IsTooDeep (outcome : EStateM.Result ParseError ParserState α) : Prop :=
  ∃ position t, outcome = .error ⟨.tooDeep, position⟩ t

theorem IsTooDeep.bind {x : Parse α} {s : ParserState} (h : IsTooDeep (x s)) (f : α → Parse β) :
    IsTooDeep ((x >>= f) s) := by
  obtain ⟨position, t, herror⟩ := h
  exact ⟨position, t, bind_error herror f⟩

/-- Within the limits the reader gives a result and stops in a state, past them it refuses. -/
def Decided (within : Prop) (outcome : EStateM.Result ParseError ParserState α) (a : α)
    (t : ParserState) : Prop :=
  within ∧ outcome = .ok a t ∨ ¬within ∧ IsTooDeep outcome

namespace Decided

variable {within whole : Prop} {a : α} {b : β} {s t u : ParserState}

theorem eq_ok {outcome : EStateM.Result ParseError ParserState α}
    (h : Decided within outcome a t) (hwithin : within) : outcome = .ok a t :=
  h.elim And.right fun hpast ↦ absurd hwithin hpast.1

theorem isTooDeep {outcome : EStateM.Result ParseError ParserState α}
    (h : Decided within outcome a t) (hpast : ¬within) : IsTooDeep outcome :=
  h.elim (fun hread ↦ absurd hread.1 hpast) And.right

theorem congr {outcome : EStateM.Result ParseError ParserState α}
    (h : Decided within outcome a t) (hiff : within ↔ whole) : Decided whole outcome a t := by
  rwa [Decided, ← hiff]

/-- A sequence is decided by its first reader if that one refuses, and by the second one if not. -/
theorem bind {x : Parse α} {f : α → Parse β} (hfirst : Decided within (x s) a t)
    (hpart : whole → within) (hrest : within → Decided whole (f a t) b u) :
    Decided whole ((x >>= f) s) b u := by
  rcases hfirst with ⟨hwithin, hok⟩ | ⟨hpast, hrefused⟩
  · rw [bind_ok hok]
    exact hrest hwithin
  · exact .inr ⟨fun hwhole ↦ hpast (hpart hwhole), hrefused.bind f⟩

/-- A reader that is decided one level further in is decided by the same limits. -/
theorem nested {body : Parse α} {read : List LocatedToken}
    (h : Decided within (body ({ t with nesting := t.nesting + 1 }.before read)) a
      { t with nesting := t.nesting + 1 }) :
    Decided within (nested body (t.before read)) a t := by
  rcases h with ⟨hwithin, hok⟩ | ⟨hpast, position, u, herror⟩
  · exact .inl ⟨hwithin, nested_ok hok⟩
  · refine .inr ⟨hpast, position, { u with nesting := u.nesting - 1 }, ?_⟩
    have hbody : body { t.before read with nesting := (t.before read).nesting + 1 } =
      .error ⟨.tooDeep, position⟩ u := herror
    rw [Parse.nested, hbody]

end Decided

theorem decided_bounded (e : Expr Reference) (s : ParserState) :
    Decided (e.depth ≤ maxDepth) (bounded e s) e s := by
  by_cases h : e.depth ≤ maxDepth
  · exact .inl ⟨h, bounded_ok h s⟩
  · refine .inr ⟨h, s.position, s, ?_⟩
    rw [bounded, if_pos (Nat.lt_of_not_le h)]
    rfl

/-- Tokens that derive a tree are read as that tree or refused, as the limits say, if a level of the
given rank stops behind them. -/
def Decides (levels : Nat) (reader : Parse (Expr Reference)) (phrase : Expr Reference → Phrase)
    (rank : Nat) : Prop :=
  ∀ ⦃t : ParserState⦄ ⦃read : List LocatedToken⦄ ⦃e : Expr Reference⦄ ⦃n : Nat⦄,
    Derives (phrase e) (read.map LocatedToken.token) n → StopsAt rank t.current? →
    Decided (n < levels ∧ e.depth ≤ maxDepth) (reader (t.before read)) e t

variable {levels : Nat} {operand : Parse (Expr Reference)}

/-! ### Levels of operators -/

theorem operatorOf_eq_none {level : Precedence} {next : Option Token}
    (h : StopsAt level.rank next) : next.bind (operatorOf level) = none := by
  cases hbind : next.bind (operatorOf level) with
  | none => rfl
  | some op =>
    obtain ⟨token, rfl, hop⟩ := Option.bind_eq_some_iff.mp hbind
    obtain ⟨rfl, rfl⟩ := operatorOf_eq_some.mp hop
    exact absurd (h.2 op rfl) (Nat.lt_irrefl _)

theorem leftAssociativeLoop_stop {level : Precedence} {s : ParserState}
    (h : StopsAt level.rank s.current?) (count : Nat) (left : Expr Reference) :
    leftAssociativeLoop (operatorOf level) operand count left s = .ok left s := by
  cases count with
  | zero => rfl
  | succ count =>
    rw [leftAssociativeLoop, current?_bind, operatorOf_eq_none h]
    rfl

/-- The loop over the links of a level, by induction on the links: each pass reads one of them. -/
theorem decides_leftAssociativeLoop {level : Precedence} (hlevels : 0 < levels)
    (hoperand : Decides levels operand level.operand (level.rank + 1)) (links : List Link) :
    ∀ {left : Expr Reference} {t : ParserState} {read : List LocatedToken} {n count : Nat},
      Derives (.links level links) (read.map LocatedToken.token) n → left.depth ≤ maxDepth →
      StopsAt level.rank t.current? → links.length ≤ count →
      Decided (n < levels ∧ (leftTree left links).depth ≤ maxDepth)
        (leftAssociativeLoop (operatorOf level) operand count left (t.before read))
        (leftTree left links) t := by
  induction links with
  | nil =>
    intro left t read n count hderives hleft hstops _
    generalize htokens : read.map LocatedToken.token = tokens at hderives
    cases hderives
    obtain rfl := List.map_eq_nil_iff.mp htokens
    exact .inl ⟨⟨hlevels, hleft⟩, leftAssociativeLoop_stop hstops count left⟩
  | cons link rest ih =>
    intro left t read n count hderives hleft hstops hcount
    obtain ⟨op, right⟩ := link
    obtain ⟨count, rfl⟩ := Nat.exists_eq_add_one_of_ne_zero (Nat.ne_zero_of_lt hcount)
    generalize htokens : read.map LocatedToken.token = tokens at hderives
    cases hderives with
    | @link _ _ _ _ us vs m k hop hright hlinks =>
      obtain ⟨located, behind, rfl, hlocated, hbehind⟩ := List.map_eq_cons_iff.mp htokens
      obtain ⟨readRight, readLinks, rfl, rfl, rfl⟩ := List.map_eq_append_iff.mp hbehind
      have hnode : (Expr.binary op left right).depth ≤
        (leftTree left ((op, right) :: rest)).depth := depth_le_leftTree rest _
      have hchild : right.depth < (Expr.binary op left right).depth :=
        Expr.depth_lt_of_mem_children (by simp [Expr.children])
      have hoperator : (some (Token.operator op)).bind (operatorOf level) = some op :=
        operatorOf_eq_some.mpr ⟨rfl, hop⟩
      rw [leftAssociativeLoop, current?_bind, ParserState.current?_before_cons, hlocated,
        hoperator]
      simp only [advance_bind, ParserState.advance_before_cons]
      rw [ParserState.before_append]
      refine (hoperand hright (hstops.links hlinks)).bind (by omega) fun hrightWithin ↦ ?_
      refine (decided_bounded _ _).bind (by omega) fun hnodeWithin ↦ ?_
      refine (ih hlinks hnodeWithin hstops (Nat.le_of_succ_le_succ hcount)).congr ?_
      have hsame :
          leftTree left ((op, right) :: rest) = leftTree (.binary op left right) rest := rfl
      rw [hsame]
      omega

theorem decides_leftAssociative (level : Precedence) (hlevel : level ≠ .comparison)
    (hoperand : Decides levels operand level.operand (level.rank + 1)) :
    Decides levels (leftAssociative (operatorOf level) operand) (.level level) level.rank := by
  intro t read e n hderives hstops
  generalize htokens : read.map LocatedToken.token = tokens at hderives
  cases hderives with
  | comparison => exact absurd rfl hlevel
  | @leftAssociative _ first links us vs m k _ hfirst hlinks =>
    obtain ⟨readFirst, readLinks, rfl, rfl, rfl⟩ := List.map_eq_append_iff.mp htokens
    have hdepth : first.depth ≤ (leftTree first links).depth := depth_le_leftTree links first
    have hcount : links.length ≤ (t.before readLinks).rest.length := by
      have hlength := length_links_le hlinks
      rw [List.length_map] at hlength
      rw [ParserState.rest_before, List.length_append]
      omega
    rw [ParserState.before_append, leftAssociative]
    refine (hoperand hfirst (hstops.links hlinks)).bind (by omega) fun hwithin ↦ ?_
    have hloop := decides_leftAssociativeLoop (Nat.zero_lt_of_lt hwithin.1) hoperand links hlinks
      hwithin.2 hstops hcount
    exact hloop.congr (by omega)

/-- The loop over comparisons. -/
theorem decides_comparisonLinks (hlevels : 0 < levels)
    (hoperand : Decides levels operand Precedence.comparison.operand
      (Precedence.comparison.rank + 1)) (links : List (Comparison × Expr Reference)) :
    ∀ {t : ParserState} {read : List LocatedToken} {n count : Nat},
      Derives (.links .comparison (links.map (Prod.map .comparison id)))
        (read.map LocatedToken.token) n →
      StopsAt Precedence.comparison.rank t.current? → links.length ≤ count →
      Decided (n < levels ∧ ∀ link ∈ links, link.2.depth ≤ maxDepth)
        (comparisonLinks operand count (t.before read)) links t := by
  induction links with
  | nil =>
    intro t read n count hderives hstops _
    generalize htokens : read.map LocatedToken.token = tokens at hderives
    cases hderives
    obtain rfl := List.map_eq_nil_iff.mp htokens
    refine .inl ⟨⟨hlevels, fun link hlink ↦ absurd hlink List.not_mem_nil⟩, ?_⟩
    cases count with
    | zero => rfl
    | succ count =>
      have hnone : t.current?.bind comparison? = none := by
        have hbind := operatorOf_eq_none hstops
        cases hcurrent : t.current? with
        | none => rfl
        | some token =>
          rw [hcurrent] at hbind
          exact Option.map_eq_none_iff.mp hbind
      rw [comparisonLinks, current?_bind, ParserState.before_nil, hnone]
      rfl
  | cons link rest ih =>
    intro t read n count hderives hstops hcount
    obtain ⟨op, right⟩ := link
    obtain ⟨count, rfl⟩ := Nat.exists_eq_add_one_of_ne_zero (Nat.ne_zero_of_lt hcount)
    generalize htokens : read.map LocatedToken.token = tokens at hderives
    cases hderives with
    | @link _ _ _ _ us vs m k hop hright hlinks =>
      obtain ⟨located, behind, rfl, hlocated, hbehind⟩ := List.map_eq_cons_iff.mp htokens
      obtain ⟨readRight, readLinks, rfl, rfl, rfl⟩ := List.map_eq_append_iff.mp hbehind
      have hoperator : (some (Token.operator (.comparison op))).bind comparison? = some op :=
        comparison?_eq_some.mpr rfl
      rw [comparisonLinks, current?_bind, ParserState.current?_before_cons, hlocated, hoperator]
      simp only [advance_bind, ParserState.advance_before_cons, List.forall_mem_cons]
      rw [ParserState.before_append]
      refine (hoperand hright (hstops.links hlinks)).bind
        (fun hwhole ↦ ⟨by omega, hwhole.2.1⟩) fun hrightWithin ↦ ?_
      have hrest := ih hlinks hstops (Nat.le_of_succ_le_succ hcount)
      refine hrest.bind (fun hwhole ↦ ⟨by omega, hwhole.2.2⟩) fun hrestWithin ↦ ?_
      exact .inl ⟨⟨by omega, hrightWithin.2, hrestWithin.2⟩, rfl⟩

theorem decides_comparisons
    (hoperand : Decides levels operand Precedence.comparison.operand
      (Precedence.comparison.rank + 1)) :
    Decides levels (comparisons operand) (.level .comparison) Precedence.comparison.rank := by
  intro t read e n hderives hstops
  generalize htokens : read.map LocatedToken.token = tokens at hderives
  cases hderives with
  | leftAssociative hlevel => exact absurd rfl hlevel
  | @comparison first links us vs m k hfirst hlinks =>
    obtain ⟨readFirst, readLinks, rfl, rfl, rfl⟩ := List.map_eq_append_iff.mp htokens
    obtain ⟨hfirstDepth, hlinksDepth⟩ := depth_le_comparisonTree first links
    have hcount : links.length ≤ (t.before readLinks).rest.length := by
      have hlength := length_links_le hlinks
      rw [List.length_map, List.length_map] at hlength
      rw [ParserState.rest_before, List.length_append]
      omega
    rw [ParserState.before_append, comparisons]
    refine (hoperand hfirst (hstops.links hlinks)).bind (by omega) fun hfirstWithin ↦ ?_
    rw [remaining_bind]
    have hloop := decides_comparisonLinks (Nat.zero_lt_of_lt hfirstWithin.1) hoperand links hlinks
      hstops hcount
    refine hloop.bind (fun hwhole ↦ ⟨by omega, fun link hlink ↦ ?_⟩) fun hlinksWithin ↦ ?_
    · exact Nat.le_trans (hlinksDepth link hlink) hwhole.2
    · -- All operands are read, so only the node over them may still be too high.
      have hnode : (comparisonTree first links).depth ≤ maxDepth ↔
          max m k < levels ∧ (comparisonTree first links).depth ≤ maxDepth := by omega
      match links, hnode with
      | [], _ => exact .inl ⟨⟨by omega, hfirstWithin.2⟩, rfl⟩
      | [(op, right)], hnode => exact (decided_bounded _ t).congr hnode
      | (op, right) :: second :: rest, hnode => exact (decided_bounded _ t).congr hnode

/-- The six levels over operands that are decided. -/
theorem decides_expressionOver (hoperand : Decides levels operand .unary 6) :
    Decides levels (expressionOver operand) (.level .or) 0 := by
  have hmultiplicative := decides_leftAssociative .multiplicative nofun hoperand
  have hadditive := decides_leftAssociative .additive nofun hmultiplicative
  have hconcat := decides_leftAssociative .concat nofun hadditive
  have hcomparison := decides_comparisons hconcat
  have hand := decides_leftAssociative .and nofun hcomparison
  exact decides_leftAssociative .or nofun hand

/-! ### Operands -/

/-- The arguments of a call and the parenthesis that closes them. -/
theorem decides_arguments {expression : Parse (Expr Reference)}
    (hexpression : Decides levels expression (.level .or) 0) (openPosition : Nat)
    {closing : LocatedToken} (hclosing : closing.token = .closeParen)
    (args : List (Expr Reference)) :
    ∀ {t : ParserState} {read : List LocatedToken} {n count : Nat},
      Derives (.arguments args) (read.map LocatedToken.token) n → read.length < count →
      Decided (n < levels ∧ ∀ arg ∈ args, arg.depth ≤ maxDepth)
        (arguments expression openPosition count (t.before (read ++ [closing]))) args t := by
  induction args with
  | nil =>
    intro t read n count hderives
    generalize htokens : read.map LocatedToken.token = tokens at hderives
    cases hderives
  | cons arg args ih =>
    intro t read n count hderives hcount
    obtain ⟨count, rfl⟩ := Nat.exists_eq_add_one_of_ne_zero (Nat.ne_zero_of_lt hcount)
    -- The check for an empty argument passes: the next token starts an operand.
    have hstart : ¬ ((t.before (read ++ [closing])).current? = some .comma ∨
        (t.before (read ++ [closing])).current? = some .closeParen) := by
      obtain ⟨token, rest, hread, hstart⟩ := hderives.exists_startsOperand trivial
      obtain ⟨located, behind, rfl, rfl, -⟩ := List.map_eq_cons_iff.mp hread
      rw [List.cons_append, ParserState.current?_before_cons]
      simp [hstart.ne_sign]
    rw [arguments, current?_bind, if_neg hstart]
    simp only [List.forall_mem_cons]
    generalize htokens : read.map LocatedToken.token = tokens at hderives
    cases hderives with
    | lastArgument hlast =>
      subst htokens
      have hstops : StopsAt 0 (t.before [closing]).current? := by
        rw [ParserState.current?_before_cons, hclosing]
        exact stopsAt_closeParen 0
      rw [ParserState.before_append]
      refine (hexpression hlast hstops).bind (fun hwhole ↦ ⟨hwhole.1, hwhole.2.1⟩) fun hwithin ↦ ?_
      rw [current?_bind, ParserState.current?_before_cons, hclosing]
      exact .inl ⟨⟨hwithin.1, hwithin.2, fun e he ↦ absurd he List.not_mem_nil⟩, rfl⟩
    | @argument _ _ us vs m k hfirst hrest =>
      obtain ⟨readFirst, behind, rfl, rfl, hbehind⟩ := List.map_eq_append_iff.mp htokens
      obtain ⟨comma, readRest, rfl, hcomma, rfl⟩ := List.map_eq_cons_iff.mp hbehind
      have hstops : StopsAt 0 (t.before (comma :: (readRest ++ [closing]))).current? := by
        rw [ParserState.current?_before_cons, hcomma]
        exact stopsAt_comma 0
      have hcountRest : readRest.length < count := by
        simp only [List.length_append, List.length_cons] at hcount
        omega
      rw [List.append_assoc, List.cons_append, ParserState.before_append]
      refine (hexpression hfirst hstops).bind (fun hwhole ↦ ⟨by omega, hwhole.2.1⟩)
        fun hfirstWithin ↦ ?_
      rw [current?_bind, ParserState.current?_before_cons, hcomma]
      simp only [advance_bind, ParserState.advance_before_cons]
      refine (ih hrest hcountRest).bind (fun hwhole ↦ ⟨by omega, hwhole.2.2⟩) fun hrestWithin ↦ ?_
      exact .inl ⟨⟨by omega, hfirstWithin.2, hrestWithin.2⟩, rfl⟩

theorem decides_primary {expression : Parse (Expr Reference)}
    (hexpression : Decides levels expression (.level .or) 0) :
    Decides (levels + 1) (primary expression) .primary 6 := by
  intro t read e n hderives hstops
  generalize htokens : read.map LocatedToken.token = tokens at hderives
  cases hderives with
  | @single token _ hoperand =>
    obtain ⟨located, rfl, hlocated⟩ := List.map_eq_singleton_iff.mp htokens
    refine .inl ⟨⟨Nat.succ_pos _, Token.depth_le_of_operand? hoperand⟩, ?_⟩
    rw [primary, position_bind, current?_bind, ParserState.current?_before_cons, hlocated]
    cases token with
    | identifier name =>
      cases hoperand
      have hnext : (t.before [located]).following? ≠ some .openParen := hstops.1
      simp only [following?_bind, advance_bind, if_neg hnext]
      rfl
    | number | text | boolean | nil | columnName | columnIndex =>
      cases hoperand
      rfl
    | _ => cases hoperand
  | @callEmpty name =>
    obtain ⟨word, behind, rfl, hword, hbehind⟩ := List.map_eq_cons_iff.mp htokens
    obtain ⟨opening, behind, rfl, hopening, hbehind⟩ := List.map_eq_cons_iff.mp hbehind
    obtain ⟨closing, rfl, hclosing⟩ := List.map_eq_singleton_iff.mp hbehind
    rw [primary, position_bind, current?_bind, ParserState.current?_before_cons, hword]
    simp only [following?_bind, advance_bind, ParserState.following?_before_cons,
      ParserState.current?_before_cons, hopening, if_true, call, position_bind, current?_bind,
      ParserState.advance_before_cons, hclosing]
    exact (decided_bounded _ t).congr (by omega)
  | @call name args us k hargs =>
    obtain ⟨word, behind, rfl, hword, hbehind⟩ := List.map_eq_cons_iff.mp htokens
    obtain ⟨opening, behind, rfl, hopening, hbehind⟩ := List.map_eq_cons_iff.mp hbehind
    obtain ⟨readArgs, last, rfl, rfl, hlast⟩ := List.map_eq_append_iff.mp hbehind
    obtain ⟨closing, rfl, hclosing⟩ := List.map_eq_singleton_iff.mp hlast
    have hstart : (t.before (readArgs ++ [closing])).current? ≠ some .closeParen := by
      obtain ⟨token, rest, hread, hstart⟩ := hargs.exists_startsOperand trivial
      obtain ⟨located, behind, rfl, rfl, -⟩ := List.map_eq_cons_iff.mp hread
      rw [List.cons_append, ParserState.current?_before_cons]
      simp [hstart.ne_sign]
    have hargsDepth : ∀ arg ∈ args, arg.depth < (Expr.call name args : Expr Reference).depth :=
      fun arg harg ↦ Expr.depth_lt_of_mem_children harg
    have hcount : readArgs.length < (t.before (readArgs ++ [closing])).rest.length := by
      simp only [ParserState.rest_before, List.length_append, List.length_singleton]
      omega
    rw [primary, position_bind, current?_bind, ParserState.current?_before_cons, hword]
    simp only [following?_bind, advance_bind, ParserState.following?_before_cons,
      ParserState.current?_before_cons, hopening, if_true, call, position_bind, current?_bind,
      ParserState.advance_before_cons, if_neg hstart, remaining_bind]
    refine (decides_arguments hexpression _ hclosing args hargs hcount).bind
      (fun hwhole ↦ ⟨by omega, fun arg harg ↦ ?_⟩) fun hargsWithin ↦ ?_
    · exact Nat.le_trans (Nat.le_of_lt (hargsDepth arg harg)) hwhole.2
    · exact (decided_bounded _ t).congr (by omega)
  | @parentheses _ us k hinner =>
    obtain ⟨opening, behind, rfl, hopening, hbehind⟩ := List.map_eq_cons_iff.mp htokens
    obtain ⟨readInner, last, rfl, rfl, hlast⟩ := List.map_eq_append_iff.mp hbehind
    obtain ⟨closing, rfl, hclosing⟩ := List.map_eq_singleton_iff.mp hlast
    have hstopsInner : StopsAt 0 (t.before [closing]).current? := by
      rw [ParserState.current?_before_cons, hclosing]
      exact stopsAt_closeParen 0
    rw [primary, position_bind, current?_bind, ParserState.current?_before_cons, hopening]
    simp only [advance_bind, ParserState.advance_before_cons]
    rw [ParserState.before_append]
    refine (hexpression hinner hstopsInner).bind (by omega) fun hwithin ↦ ?_
    rw [current?_bind, ParserState.current?_before_cons, hclosing, if_pos rfl]
    exact .inl ⟨by omega, rfl⟩

/-- An operand without a minus sign does not begin with one. -/
theorem current?_ne_minus {t : ParserState} {read : List LocatedToken} {e : Expr Reference}
    {n : Nat} (h : Derives (.primary e) (read.map LocatedToken.token) n) :
    (t.before read).current? ≠ some (.operator (.arithmetic .subtract)) := by
  generalize htokens : read.map LocatedToken.token = tokens at h
  cases h with
  | single hoperand =>
    obtain ⟨located, rfl, rfl⟩ := List.map_eq_singleton_iff.mp htokens
    intro hminus
    rw [Option.some.inj hminus] at hoperand
    cases hoperand
  | _ =>
    obtain ⟨located, behind, rfl, hlocated, -⟩ := List.map_eq_cons_iff.mp htokens
    rw [ParserState.current?_before_cons, hlocated]
    exact nofun

/-- The knot, by induction on the levels of nesting. An operand needs a level for itself, so without
any left it is refused whatever it is. -/
theorem decides_unary (levels : Nat) : Decides levels (unary levels) .unary 6 := by
  induction levels with
  | zero =>
    exact fun t read e n _ _ ↦ .inr ⟨fun hwithin ↦ Nat.not_lt_zero n hwithin.1, _, _, rfl⟩
  | succ levels ih =>
    intro t read e n hderives hstops
    refine Decided.nested ?_
    rw [current?_bind]
    generalize htokens : read.map LocatedToken.token = tokens at hderives
    cases hderives with
    | @minus operand us k hoperand =>
      obtain ⟨sign, behind, rfl, hsign, rfl⟩ := List.map_eq_cons_iff.mp htokens
      have hchild : operand.depth < (Expr.binary (.arithmetic .subtract) (.number (.zero false))
          operand).depth := Expr.depth_lt_of_mem_children (by simp [Expr.children])
      rw [ParserState.current?_before_cons, hsign, if_pos rfl, advance_bind,
        ParserState.advance_before_cons]
      have hread := ih (t := { t with nesting := t.nesting + 1 }) hoperand hstops
      refine hread.bind (fun hwhole ↦ by omega) fun hwithin ↦ ?_
      exact (decided_bounded _ _).congr (by omega)
    | primary hprimary =>
      subst htokens
      rw [if_neg (current?_ne_minus hprimary)]
      exact decides_primary (decides_expressionOver ih) hprimary hstops

/-- An expression, with as many levels of nesting as the open ones leave. -/
theorem decides_expression {t : ParserState} {read : List LocatedToken} {e : Expr Reference}
    {n : Nat} (hderives : Derives (.level .or e) (read.map LocatedToken.token) n)
    (hstops : StopsAt 0 t.current?) :
    Decided (n < maxDepth - t.nesting ∧ e.depth ≤ maxDepth) (expression (t.before read)) e t :=
  decides_expressionOver (decides_unary _) hderives hstops

theorem complete_expression {t : ParserState} {read : List LocatedToken} {e : Expr Reference}
    {n : Nat} (hderives : Derives (.level .or e) (read.map LocatedToken.token) n)
    (hn : n < maxDepth - t.nesting) (hdepth : e.depth ≤ maxDepth)
    (hstops : StopsAt 0 t.current?) : expression (t.before read) = .ok e t :=
  (decides_expression hderives hstops).eq_ok ⟨hn, hdepth⟩

end Parse

end ColumnFormula
