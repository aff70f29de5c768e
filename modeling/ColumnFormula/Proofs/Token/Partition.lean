import ColumnFormula.Proofs.Number.Reading
import ColumnFormula.Proofs.Token.Reading

/-!
# The lexer takes a text apart

A cursor stands inside of its text and stays there: whatever a call of `TextCursor.next` returns, it
steps over characters that are there (`TextCursor.StandsIn.next`), so no sequence of calls leaves
the text, also when it goes on behind errors and behind the end. A call that returns a token steps
forward, and tokenizing makes calls until the first one that does not
(`TextCursor.exists_calls_tokens`). What comes of a success is a partition of the text into blanks
and lexemes, each lexeme being written as its token prescribes (`Partition`): the text can be put
together again from them.
-/

set_option autoImplicit false
set_option relaxedAutoImplicit false

namespace ColumnFormula

/-! ### Lexemes -/

/-- How a token is written. -/
def Token.IsLexeme (lexeme : List Char) : Token → Prop
  | .number value => ∃ whole fraction : List Char, lexeme = Numeral.written whole fraction ∧
      (∀ c ∈ whole ++ fraction, c.isDigit = true) ∧ whole ++ fraction ≠ [] ∧
      value = (Numeral.ofDigits whole fraction).toBinary64 false
  | .text content => ∃ quote, (quote = '"' ∨ quote = '\'') ∧ quote ∉ content.toList ∧
      lexeme = quote :: (content.toList ++ [quote])
  | .boolean value => lexeme = (toString value).toList
  | .nil => lexeme = "nil".toList
  | .identifier name => IsName name.toList ∧ lexeme = name.toList
  | .columnName name => ']' ∉ name.toList ∧ lexeme = '[' :: (name.toList ++ [']'])
  | .columnIndex index => ∃ digits, lexeme = '#' :: digits ∧ digits ≠ [] ∧
      (∀ c ∈ digits, c.isDigit = true) ∧ ofDecimalDigits digits = index
  | .new => isNewWord lexeme = true
  | .operator op => lexeme = op.symbol.toList
  | .assign => lexeme = "=".toList
  | .openParen => lexeme = "(".toList
  | .closeParen => lexeme = ")".toList
  | .comma => lexeme = ",".toList

theorem isLexeme_of_mem_signs {sign : List Char} {token : Token}
    (h : (sign, token) ∈ Token.signs) : token.IsLexeme sign := by
  simp only [Token.signs, List.mem_cons, List.not_mem_nil, or_false, Prod.mk.injEq] at h
  rcases h with ⟨rfl, rfl⟩ | ⟨rfl, rfl⟩ | ⟨rfl, rfl⟩ | ⟨rfl, rfl⟩ | ⟨rfl, rfl⟩ | ⟨rfl, rfl⟩ |
    ⟨rfl, rfl⟩ | ⟨rfl, rfl⟩ | ⟨rfl, rfl⟩ | ⟨rfl, rfl⟩ | ⟨rfl, rfl⟩ | ⟨rfl, rfl⟩ | ⟨rfl, rfl⟩ |
    ⟨rfl, rfl⟩ | ⟨rfl, rfl⟩ | ⟨rfl, rfl⟩ | ⟨rfl, rfl⟩ <;> rfl

theorem Token.SpelledBy.isLexeme {token : Token} {spelling : List Char}
    (h : token.SpelledBy spelling) : token.IsLexeme spelling := by
  cases h with
  | number hliteral hstart hread =>
    obtain ⟨whole, fraction, rfl, rfl, hwhole, hfraction, hne⟩ :=
      Numeral.exists_written_of_readPlainNumeral? hread
    refine ⟨whole, fraction, rfl, fun c hc ↦ ?_, ?_, rfl⟩
    · exact (List.mem_append.mp hc).elim (hwhole c) (hfraction c)
    · simpa [Classical.or_iff_not_imp_left] using hne
  | text hquote hcontent => exact ⟨_, hquote, hcontent, rfl⟩
  | boolean value => exact rfl
  | nil => exact rfl
  | identifier hname => exact ⟨hname, rfl⟩
  | columnName hname => exact ⟨hname, rfl⟩
  | columnIndex hne hdigits hsize => exact ⟨_, rfl, hne, hdigits, rfl⟩
  | new hword => exact hword
  | sign hsign => exact isLexeme_of_mem_signs hsign

/-! ### Partitions -/

/-- A text from an offset on, taken apart into blanks and the lexemes of its tokens, and the offset
of its end. Every token stands at the offset of its lexeme. -/
inductive Partition : Nat → List Char → List LocatedToken → Nat → Prop
  | finish {offset : Nat} {gap : List Char} (hgap : Blank gap) :
      Partition offset gap [] (offset + gap.length)
  | token {offset finish : Nat} {gap lexeme rest : List Char} {token : Token}
      {tokens : List LocatedToken} (hgap : Blank gap) (hlexeme : token.IsLexeme lexeme)
      (hrest : Partition (offset + gap.length + lexeme.length) rest tokens finish) :
      Partition offset (gap ++ (lexeme ++ rest)) (⟨token, offset + gap.length⟩ :: tokens) finish

theorem Cut.partition {offset finish : Nat} {cs : List Char} {tokens : List LocatedToken}
    (h : Cut offset cs tokens finish) : Partition offset cs tokens finish := by
  induction h with
  | finish hgap => exact .finish hgap
  | token hgap hc hread _ ih => exact .token hgap (spelledBy_of_readToken hread).isLexeme ih

/-! ### The cursor stays inside of the text -/

theorem length_readDelimited_le (close : Char) (token : String → Token) (fault : LexFault)
    (rest : List Char) : (readDelimited close token fault rest).length ≤ rest.length + 1 := by
  unfold readDelimited
  dsimp only
  split
  · dsimp only
    omega
  · exact Nat.le_refl _

theorem length_readColumnIndex_le (rest : List Char) :
    (readColumnIndex rest).length ≤ rest.length + 1 := by
  have hliteral := (List.takeWhile_prefix isLiteralChar (l := rest)).length_le
  unfold readColumnIndex
  dsimp only
  split <;> exact Nat.succ_le_succ hliteral

theorem length_readNumber_le (cs : List Char) : (readNumber cs).length ≤ cs.length := by
  have hliteral := (List.takeWhile_prefix isLiteralChar (l := cs)).length_le
  unfold readNumber
  dsimp only
  split <;> exact hliteral

/-- For a token or a fault no more characters are read than there are. -/
theorem length_readToken_le (c : Char) (rest : List Char) :
    (readToken c rest).length ≤ (c :: rest).length := by
  unfold readToken
  split
  · rename_i sign token hsign
    obtain ⟨-, after, happend⟩ := exists_of_readSign? hsign
    rw [happend]
    simp
  · split_ifs
    · exact length_readDelimited_le _ _ _ rest
    · exact length_readDelimited_le _ _ _ rest
    · exact length_readColumnIndex_le rest
    · exact length_readNumber_le (c :: rest)
    · exact (List.takeWhile_prefix isNameChar (l := c :: rest)).length_le
    · exact Nat.zero_le _

namespace TextCursor

/-- The cursor has stepped over the first characters of the text, as many as its offset says, and
what is left is the rest of the text. -/
structure StandsIn (cursor : TextCursor) (cs : List Char) : Prop where
  offset_le : cursor.offset ≤ cs.length
  rest : cursor.rest = cs.drop cursor.offset

theorem standsIn_start (cs : List Char) : (start cs).StandsIn cs := ⟨Nat.zero_le _, rfl⟩

theorem StandsIn.offset_add {cursor : TextCursor} {cs : List Char} (h : cursor.StandsIn cs) :
    cursor.offset + cursor.rest.length = cs.length := by
  have hle := h.offset_le
  rw [h.rest, List.length_drop]
  omega

theorem StandsIn.advance {cursor : TextCursor} {cs : List Char} (h : cursor.StandsIn cs)
    {count : Nat} (hcount : count ≤ cursor.rest.length) : (cursor.advance count).StandsIn cs := by
  have hlength := h.offset_add
  refine ⟨?_, ?_⟩
  · show cursor.offset + count ≤ cs.length
    omega
  · show cursor.rest.drop count = cs.drop (cursor.offset + count)
    rw [h.rest, List.drop_drop]

/-- One call, whatever it returns, leaves the cursor inside of the text. -/
theorem StandsIn.next {cursor : TextCursor} {cs : List Char} (h : cursor.StandsIn cs) :
    cursor.next.2.StandsIn cs := by
  have hskip : cursor.skipBlanks.StandsIn cs :=
    h.advance (List.takeWhile_prefix isBlank).length_le
  unfold TextCursor.next
  dsimp only
  split
  · exact hskip
  · rename_i c rest hrest
    have hafter : (cursor.skipBlanks.advance (readToken c rest).length).StandsIn cs := by
      refine hskip.advance ?_
      rw [hrest]
      exact length_readToken_le c rest
    split <;> exact hafter

/-- A call that returns a token steps forward. -/
theorem StandsIn.offset_lt {cursor after : TextCursor} {cs : List Char} (h : cursor.StandsIn cs)
    {token : LocatedToken} (hnext : cursor.next = (.ok (some token), after)) :
    cursor.offset < after.offset := by
  have hafter : after.StandsIn cs := by
    have hstands := h.next
    rwa [hnext] at hstands
  have hbefore := h.offset_add
  have hbehind := hafter.offset_add
  have hlength := rest_length_next_lt hnext
  omega

/-! ### Sequences of calls -/

/-- The cursor behind some calls of `next`, whatever they return. -/
def afterCalls (cursor : TextCursor) : Nat → TextCursor
  | 0 => cursor
  | count + 1 => cursor.next.2.afterCalls count

theorem StandsIn.afterCalls {cursor : TextCursor} {cs : List Char} (h : cursor.StandsIn cs)
    (count : Nat) : (cursor.afterCalls count).StandsIn cs := by
  induction count generalizing cursor with
  | zero => exact h
  | succ count ih => exact ih h.next

/-- Tokenizing makes calls as long as they return tokens, and the next call finds the end or the
error. -/
theorem exists_calls_tokens (cursor : TextCursor) :
    ∃ calls ≤ cursor.rest.length,
      (∀ earlier < calls, ∃ token, (cursor.afterCalls earlier).next.1 = .ok (some token)) ∧
      ((∃ list, cursor.tokens = .ok list ∧ list.tokens.length = calls ∧
          (cursor.afterCalls calls).next.1 = .ok none) ∨
        ∃ e, cursor.tokens = .error e ∧ (cursor.afterCalls calls).next.1 = .error e) := by
  fun_induction tokens cursor with
  | case1 cursor e after hnext =>
    refine ⟨0, Nat.zero_le _, fun _ hearlier ↦ absurd hearlier (Nat.not_lt_zero _), ?_⟩
    exact .inr ⟨e, rfl, by rw [afterCalls, hnext]⟩
  | case2 cursor after hnext =>
    refine ⟨0, Nat.zero_le _, fun _ hearlier ↦ absurd hearlier (Nat.not_lt_zero _), ?_⟩
    exact .inl ⟨_, rfl, rfl, by rw [afterCalls, hnext]⟩
  | case3 cursor token after hnext ih =>
    obtain ⟨calls, hcalls, htokens, hlast⟩ := ih
    have hlength := rest_length_next_lt hnext
    have hbehind (count : Nat) : cursor.afterCalls (count + 1) = after.afterCalls count := by
      rw [afterCalls, hnext]
    refine ⟨calls + 1, by omega, fun earlier hearlier ↦ ?_, ?_⟩
    · cases earlier with
      | zero => exact ⟨token, by rw [afterCalls, hnext]⟩
      | succ earlier =>
        rw [hbehind]
        exact htokens earlier (Nat.lt_of_succ_lt_succ hearlier)
    · rw [hbehind]
      rcases hlast with ⟨list, htail, hcount, hfinish⟩ | ⟨e, htail, herror⟩
      · exact .inl ⟨⟨token :: list.tokens, list.finish⟩, by rw [htail]; rfl,
          congrArg Nat.succ hcount, hfinish⟩
      · exact .inr ⟨e, by rw [htail]; rfl, herror⟩

end TextCursor

/-! ### Tokenizing -/

/-- No sequence of calls leaves the text, a call that returns a token steps forward, tokenizing ends
within as many calls as there are characters, and a success takes the whole text apart into blanks
and lexemes. -/
theorem tokenize_partitions (text : String) :
    (∀ calls, ((TextCursor.start text.toList).afterCalls calls).offset ≤ text.length ∧
      ∀ token after,
        ((TextCursor.start text.toList).afterCalls calls).next = (.ok (some token), after) →
        ((TextCursor.start text.toList).afterCalls calls).offset < after.offset) ∧
    (∃ calls ≤ text.length,
      (∀ earlier < calls, ∃ token,
        ((TextCursor.start text.toList).afterCalls earlier).next.1 = .ok (some token)) ∧
      ((∃ list, tokenize text = .ok list ∧ list.tokens.length = calls ∧
          ((TextCursor.start text.toList).afterCalls calls).next.1 = .ok none) ∨
        ∃ e, tokenize text = .error e ∧
          ((TextCursor.start text.toList).afterCalls calls).next.1 = .error e)) ∧
    ∀ list, tokenize text = .ok list →
      list.finish = text.length ∧
      (list.tokens.map LocatedToken.offset ++ [list.finish]).Pairwise (· < ·) ∧
      Partition 0 text.toList list.tokens list.finish := by
  refine ⟨fun calls ↦ ?_, ?_, fun list hlist ↦ ?_⟩
  · have hstands := (TextCursor.standsIn_start text.toList).afterCalls calls
    have hle := hstands.offset_le
    rw [String.length_toList] at hle
    exact ⟨hle, fun token after hnext ↦ hstands.offset_lt hnext⟩
  · have hcalls := TextCursor.exists_calls_tokens (TextCursor.start text.toList)
    rwa [TextCursor.start, String.length_toList] at hcalls
  · have hcut : Cut 0 text.toList list.tokens list.finish := TextCursor.cut_of_tokens hlist
    have hfinish := hcut.finish_eq
    rw [Nat.zero_add, String.length_toList] at hfinish
    exact ⟨hfinish, hcut.pairwise_offsets, hcut.partition⟩

/-- The word `new` is a keyword in any letter case, and the blanks around the quoted text are blanks
between lexemes. -/
theorem tokenize_partitions_new_call :
    let tokens : List LocatedToken := [⟨.new, 0⟩, ⟨.openParen, 4⟩, ⟨.text "a b", 6⟩,
      ⟨.closeParen, 12⟩]
    tokenize "nEw ( 'a b'\n)" = .ok ⟨tokens, 13⟩ ∧
      Partition 0 "nEw ( 'a b'\n)".toList tokens 13 := by
  have htokens : tokenize "nEw ( 'a b'\n)" = .ok ⟨[⟨.new, 0⟩, ⟨.openParen, 4⟩, ⟨.text "a b", 6⟩,
      ⟨.closeParen, 12⟩], 13⟩ := by decide +kernel
  exact ⟨htokens, ((tokenize_partitions _).2.2 _ htokens).2.2⟩

end ColumnFormula
