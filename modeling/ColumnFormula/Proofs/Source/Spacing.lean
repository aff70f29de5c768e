import ColumnFormula.Proofs.Source.Layout

/-!
# Writing any tokens

Any list of tokens can be written down and read back, whether it is a formula or not. A `Spacing`
makes the choices: the blanks, of which there is at least one between two tokens, the quotes of
texts that allow both, and the letters of every word `NEW`. A blank behind a token is the end of
whatever the token is; only what becomes of the word `new` depends on the token behind the blanks
(`endsBefore_blank_append`). So tokens that have a spelling, and in which every word `new` is what
its neighbour makes of it (`NewBeforeParen`), are found again where they were written
(`Spacing.tokenize_write`): the offset of a token counts the characters in front of its spelling
(`Spacing.exists_write_eq`).
-/

set_option autoImplicit false
set_option relaxedAutoImplicit false

namespace ColumnFormula

/-! ### The word `new` among tokens -/

/-- The word `NEW` is directly followed by an opening parenthesis, and a name that is this word in
some letter case is not. -/
structure NewBeforeParen (tokens : List Token) : Prop where
  new : ∀ k : Nat, tokens[k]? = some .new → tokens[k + 1]? = some .openParen
  identifier : ∀ (k : Nat) (name : String), tokens[k]? = some (.identifier name) →
    isNewWord name.toList = true → tokens[k + 1]? ≠ some .openParen

theorem NewBeforeParen.tail {token : Token} {rest : List Token}
    (h : NewBeforeParen (token :: rest)) : NewBeforeParen rest :=
  ⟨fun k ↦ h.new (k + 1), fun k ↦ h.identifier (k + 1)⟩

/-- A spelling begins with an opening parenthesis if its token is one. -/
theorem opensParen_spelling {token : Token} {spelling : List Char} (h : token.SpelledBy spelling)
    (rest : List Char) : opensParen (spelling ++ rest) = true ↔ token = .openParen := by
  obtain ⟨c, tail, rfl, hblank, hkind⟩ := h.exists_cons
  have hopens : opensParen (c :: tail ++ rest) = (c == '(') :=
    @opensParen_append [] (tail ++ rest) c blank_nil hblank
  rw [hopens, beq_iff_eq]
  obtain ⟨-, -, hparen⟩ | ⟨hnosign, hc⟩ := hkind
  · exact hparen
  · have hnot : c ≠ '(' := fun heq ↦ hc (heq ▸ by decide)
    have htoken : token ≠ .openParen := fun heq ↦ by
      rw [heq] at hnosign
      cases hnosign
    exact iff_of_false hnot htoken

/-- A token ends in front of a blank, and the word `new` is a keyword or a name as the text behind
the blanks has it. -/
theorem endsBefore_blank_append {token : Token} {gap rest : List Char} (hgap : Blank gap)
    (hne : gap ≠ []) (hnew : token = .new → opensParen rest = true)
    (hidentifier : ∀ name, token = .identifier name → isNewWord name.toList = true →
      opensParen rest = false) : token.EndsBefore (gap ++ rest) := by
  obtain ⟨c, tail, rfl⟩ := List.exists_cons_of_ne_nil hne
  have hparen := opensParen_blank_append hgap rest
  refine endsBefore_of_boundary (fun p hp ↦ ?_) (fun heq ↦ hparen.trans (hnew heq))
    (fun name heq hword ↦ hparen.trans (hidentifier name heq hword))
  exact boundary_cons (hp c (hgap c List.mem_cons_self)) (tail ++ rest)

/-! ### Writing tokens -/

/-- The free choices in writing a list of tokens: the blanks in front of, between and behind them,
the quotes of texts and the letters of the word `NEW`, by the number of the token. -/
structure Spacing where
  leading : { cs : List Char // Blank cs }
  between : Nat → { cs : List Char // Blank cs ∧ cs ≠ [] }
  trailing : { cs : List Char // Blank cs }
  singleQuotes : Nat → Bool
  newWord : Nat → { word : List Char // isNewWord word = true }

namespace Spacing

/-- The spelling of a token by its number. -/
def spelling (spacing : Spacing) (number : Nat) : Token → List Char
  | .new => (spacing.newWord number).1
  | token => token.spell (spacing.singleQuotes number)

/-- The tokens from the given number on, with blanks between them. -/
def body (spacing : Spacing) (number : Nat) : List Token → List Char
  | [] => []
  | [token] => spacing.spelling number token
  | token :: rest =>
    spacing.spelling number token ++
      ((spacing.between number).1 ++ spacing.body (number + 1) rest)

/-- The text of a list of tokens. -/
def write (spacing : Spacing) (tokens : List Token) : List Char :=
  spacing.leading.1 ++ (spacing.body 0 tokens ++ spacing.trailing.1)

/-- Where the tokens of a body stand that is written from an offset on. -/
def locatedFrom (spacing : Spacing) (number offset : Nat) : List Token → List LocatedToken
  | [] => []
  | token :: rest =>
    ⟨token, offset⟩ :: spacing.locatedFrom (number + 1)
      (offset + (spacing.spelling number token).length + (spacing.between number).1.length) rest

/-- The tokens, each with the offset at which it is written. -/
def located (spacing : Spacing) (tokens : List Token) : List LocatedToken :=
  spacing.locatedFrom 0 spacing.leading.1.length tokens

variable (spacing : Spacing)

theorem spelledBy_spelling {token : Token} (h : token.WellFormed) (number : Nat) :
    token.SpelledBy (spacing.spelling number token) := by
  unfold spelling
  split
  · exact .new (spacing.newWord number).2
  · exact Token.spelledBy_spell h (spacing.singleQuotes number)

theorem exists_body_cons (number : Nat) (token : Token) (rest : List Token) :
    ∃ following, spacing.body number (token :: rest) =
      spacing.spelling number token ++ following := by
  cases rest with
  | nil => exact ⟨[], (List.append_nil _).symm⟩
  | cons => exact ⟨_, rfl⟩

theorem exists_body_eq {number offset k : Nat} {tokens : List Token} {located : LocatedToken}
    (h : (spacing.locatedFrom number offset tokens)[k]? = some located) :
    ∃ front back, spacing.body number tokens =
        front ++ (spacing.spelling (number + k) located.token ++ back) ∧
      located.offset = offset + front.length := by
  induction tokens generalizing number offset k with
  | nil => cases h
  | cons token rest ih =>
    cases k with
    | zero =>
      obtain rfl := Option.some.inj h
      obtain ⟨following, hbody⟩ := spacing.exists_body_cons number token rest
      exact ⟨[], following, hbody, rfl⟩
    | succ k =>
      obtain ⟨front, back, hbody, hoffset⟩ := ih h
      cases rest with
      | nil => cases h
      | cons next rest =>
        refine ⟨spacing.spelling number token ++ ((spacing.between number).1 ++ front), back,
          ?_, ?_⟩
        · rw [body, hbody, Nat.add_right_comm number 1 k, Nat.add_assoc number k 1]
          · simp only [List.append_assoc]
          · exact nofun
        · simp only [hoffset, List.length_append]
          omega

theorem map_token_locatedFrom (number offset : Nat) (tokens : List Token) :
    (spacing.locatedFrom number offset tokens).map (·.token) = tokens := by
  induction tokens generalizing number offset with
  | nil => rfl
  | cons token rest ih => rw [locatedFrom, List.map_cons, ih]

/-- The offset of a token is the length of what is written in front of its spelling. -/
theorem exists_write_eq {k : Nat} {tokens : List Token} {located : LocatedToken}
    (h : (spacing.located tokens)[k]? = some located) :
    ∃ front back, spacing.write tokens = front ++ (spacing.spelling k located.token ++ back) ∧
      located.offset = front.length := by
  obtain ⟨front, back, hbody, hoffset⟩ := spacing.exists_body_eq h
  rw [Nat.zero_add] at hbody
  refine ⟨spacing.leading.1 ++ front, back ++ spacing.trailing.1, ?_, ?_⟩
  · simp only [write, hbody, List.append_assoc]
  · rw [hoffset, List.length_append]

/-- The lexer finds the tokens of a body where they were written. -/
theorem exists_cut_body {tokens : List Token} (hwell : ∀ token ∈ tokens, token.WellFormed)
    (hnew : NewBeforeParen tokens) (number offset : Nat) {gap : List Char} (hgap : Blank gap) :
    ∃ finish, Cut offset (gap ++ (spacing.body number tokens ++ spacing.trailing.1))
      (spacing.locatedFrom number (offset + gap.length) tokens) finish := by
  induction tokens generalizing number offset gap with
  | nil => exact ⟨_, .finish fun c hc ↦ (List.mem_append.mp hc).elim (hgap c)
      (spacing.trailing.2 c)⟩
  | cons token rest ih =>
    have hspelled := spacing.spelledBy_spelling (hwell token List.mem_cons_self) number
    obtain ⟨c, tail, hcons, hblank, -⟩ := hspelled.exists_cons
    rw [hcons] at hspelled
    cases rest with
    | nil =>
      have hlast : token ≠ .new := fun heq ↦ by simpa using hnew.new 0 (congrArg some heq)
      have hend : token.EndsBefore spacing.trailing.1 :=
        endsBefore_of_blank hlast spacing.trailing.2
      rw [body, hcons]
      exact ⟨_, .token hgap hblank (readToken_of_spelledBy hspelled hend)
        (.finish spacing.trailing.2)⟩
    | cons next rest =>
      have hwellrest : ∀ token ∈ next :: rest, token.WellFormed :=
        fun t ht ↦ hwell t (List.mem_cons_of_mem token ht)
      obtain ⟨finish, hcut⟩ := ih hwellrest hnew.tail (number + 1)
        (offset + gap.length + (c :: tail).length) (spacing.between number).2.1
      have hnext := spacing.spelledBy_spelling (hwellrest next List.mem_cons_self) (number + 1)
      obtain ⟨following, hbody⟩ := spacing.exists_body_cons (number + 1) next rest
      have hparen : opensParen (spacing.body (number + 1) (next :: rest) ++ spacing.trailing.1) =
          true ↔ next = .openParen := by
        rw [hbody, List.append_assoc]
        exact opensParen_spelling hnext _
      have hend : token.EndsBefore ((spacing.between number).1 ++
          (spacing.body (number + 1) (next :: rest) ++ spacing.trailing.1)) := by
        refine endsBefore_blank_append (spacing.between number).2.1 (spacing.between number).2.2
          (fun heq ↦ ?_) (fun name heq hword ↦ ?_)
        · exact hparen.mpr (Option.some.inj (hnew.new 0 (congrArg some heq)))
        · have hnot := hnew.identifier 0 name (congrArg some heq) hword
          exact Bool.eq_false_iff.mpr fun hopens ↦ hnot (congrArg some (hparen.mp hopens))
      have hread := readToken_of_spelledBy hspelled hend
      refine ⟨finish, ?_⟩
      rw [body, hcons, locatedFrom, hcons]
      · simp only [List.append_assoc]
        exact .token hgap hblank hread hcut
      · exact nofun

/-- Reading undoes writing for every list of tokens, grammatical or not: tokenizing finds exactly
the tokens, and then the end. The offset at which a token is found is the number of characters that
were written in front of its spelling. -/
theorem tokenize_write {tokens : List Token} (hwell : ∀ token ∈ tokens, token.WellFormed)
    (hnew : NewBeforeParen tokens) :
    tokenize (String.ofList (spacing.write tokens)) =
        .ok ⟨spacing.located tokens, (spacing.write tokens).length⟩ ∧
      (spacing.located tokens).map (·.token) = tokens ∧
      ∀ k located, (spacing.located tokens)[k]? = some located →
        ∃ front back,
          spacing.write tokens = front ++ (spacing.spelling k located.token ++ back) ∧
          located.offset = front.length := by
  obtain ⟨finish, hcut⟩ := spacing.exists_cut_body hwell hnew 0 0 spacing.leading.2
  rw [Nat.zero_add] at hcut
  have hfinish := hcut.finish_eq
  rw [Nat.zero_add] at hfinish
  rw [hfinish] at hcut
  exact ⟨tokenize_of_cut hcut, spacing.map_token_locatedFrom 0 _ tokens,
    fun _ _ ↦ spacing.exists_write_eq⟩

/-- No blanks at the ends, a newline between any two tokens, double quotes, and `nEw`. -/
def lines : Spacing where
  leading := ⟨[], blank_nil⟩
  between _ := ⟨['\n'], List.forall_mem_singleton.mpr (by decide), nofun⟩
  trailing := ⟨[], blank_nil⟩
  singleQuotes _ := false
  newWord _ := ⟨"nEw".toList, by decide⟩

/-- No formula: `nEw`, `(`, `'a"b'`, `=`, `==`, `New`, `1.5`, `#7`, `[x y]` on a line each. -/
theorem tokenize_write_lines :
    let tokens : List Token := [.new, .openParen, .text "a\"b", .assign,
      .operator (.comparison .equal), .identifier "New",
      .number (.finite false 0x18000000000000 (-52) (by decide)), .columnIndex 7,
      .columnName "x y"]
    (∀ token ∈ tokens, token.WellFormed) ∧ NewBeforeParen tokens ∧
      tokenize (String.ofList (lines.write tokens)) =
        .ok ⟨lines.located tokens, (lines.write tokens).length⟩ ∧
      (lines.located tokens).map (·.token) = tokens ∧
      ∀ k located, (lines.located tokens)[k]? = some located →
        ∃ front back, lines.write tokens = front ++ (lines.spelling k located.token ++ back) ∧
          located.offset = front.length := by
  intro tokens
  have hname : IsName "New".toList :=
    ⟨⟨'N', "ew".toList, rfl, by decide⟩, List.all_eq_true.mp (by decide), by decide⟩
  have hbracket : ']' ∉ "x y".toList := by decide
  have hindex : 7 < UInt64.size := by decide
  have hwell : ∀ token ∈ tokens, token.WellFormed := by
    simp only [tokens, List.forall_mem_cons]
    exact ⟨trivial, trivial, .inr (by decide), trivial, trivial, hname, rfl, hindex, hbracket,
      List.forall_mem_nil _⟩
  have hlength {k : Nat} {token : Token} (h : tokens[k]? = some token) : k < 9 :=
    (List.getElem?_eq_some_iff.mp h).1
  have hword : ∀ k < 9, tokens[k]? = some .new → k = 0 := by decide
  have hparen : ∀ k < 9, tokens[k + 1]? = some .openParen → k = 0 := by decide
  have hnew : NewBeforeParen tokens := by
    refine ⟨fun k hk ↦ ?_, fun k name hk _ hnext ↦ ?_⟩
    · rw [hword k (hlength hk) hk]
      rfl
    · rw [hparen k (hlength hk) hnext] at hk
      cases hk
  exact ⟨hwell, hnew, lines.tokenize_write hwell hnew⟩

end Spacing

end ColumnFormula
