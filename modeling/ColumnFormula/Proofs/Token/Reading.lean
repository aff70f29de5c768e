import ColumnFormula.Proofs.Outcome
import ColumnFormula.Proofs.Token.Cutting
import ColumnFormula.Proofs.Token.Spelling

/-!
# What the lexer reads

The converse of reading spellings. Whenever the lexer gives a token it has read a spelling of it
from the start of the text (`readsSpelling_of_readToken`). So every text is blank, or it begins with
a token or a fault behind blanks, which is the induction that statements about all texts go by
(`readingInduction`); and whenever the lexer gives all tokens of a text it has cut the text into
blanks and spellings (`TextCursor.cut_of_tokens`).
-/

set_option autoImplicit false
set_option relaxedAutoImplicit false

namespace ColumnFormula

/-! ### Signs and delimiters -/

theorem exists_of_readSign? {cs sign : List Char} {token : Token}
    (h : readSign? cs = some (sign, token)) :
    (sign, token) ∈ Token.signs ∧ ∃ after, cs = sign ++ after := by
  have hbegins : sign.isPrefixOf cs = true :=
    List.find?_some (p := fun entry : List Char × Token ↦ entry.1.isPrefixOf cs) h
  obtain ⟨after, happend⟩ := List.isPrefixOf_iff_prefix.mp hbegins
  exact ⟨List.mem_of_find?_eq_some h, after, happend.symm⟩

/-- Without its closing delimiter nothing is read. -/
theorem readDelimited_of_not_mem {close : Char} {token : String → Token} {fault : LexFault}
    {rest : List Char} (h : close ∉ rest) :
    readDelimited close token fault rest = ⟨.error fault, rest.length + 1⟩ := by
  have htake : rest.takeWhile (· != close) = rest := by
    refine List.takeWhile_eq_self_iff.mpr fun c hc ↦ ?_
    have hne : c ≠ close := fun heq ↦ h (heq ▸ hc)
    simpa using hne
  simp [readDelimited, htake]

/-! ### Runs of characters -/

/-- Whether a number starts at a text is seen from its first literal characters. -/
theorem startsNumber_takeWhile (cs : List Char) :
    startsNumber (cs.takeWhile isLiteralChar) = startsNumber cs := by
  rw [Bool.eq_iff_iff]
  constructor
  · intro h
    rw [← List.takeWhile_append_dropWhile (p := isLiteralChar) (l := cs)]
    exact startsNumber_append h
  · intro h
    unfold startsNumber at h
    split at h
    · rename_i d rest
      have hdot : isLiteralChar '.' = true := rfl
      rw [List.takeWhile_cons_of_pos hdot, List.takeWhile_cons_of_pos (isLiteralChar_of_isDigit h)]
      exact h
    · rename_i c rest _
      have hdigit : startsNumber [c] = true := by simpa [startsNumber] using h
      rw [List.takeWhile_cons_of_pos (isLiteralChar_of_isDigit h)]
      exact @startsNumber_append _ (rest.takeWhile isLiteralChar) hdigit
    · cases h

/-- The token of a word is spelled by the word. -/
theorem spelledBy_wordToken {c : Char} {tail : List Char} (hstart : isNameStart c = true)
    (hchars : ∀ d ∈ c :: tail, isNameChar d = true) (after : List Char) :
    (wordToken (c :: tail) after).SpelledBy (c :: tail) := by
  by_cases hkeyword : c :: tail ∈ keywords
  · simp only [keywords, List.mem_cons, List.not_mem_nil, or_false] at hkeyword
    rcases hkeyword with htrue | hfalse | hnil
    · rw [htrue]
      exact .boolean true
    · rw [hfalse]
      exact .boolean false
    · rw [hnil]
      exact .nil
  · rw [wordToken_of_not_keyword hkeyword]
    split
    · rename_i hnew
      exact .new (Bool.and_eq_true_iff.mp hnew).1
    · have hname : IsName (String.ofList (c :: tail)).toList := by
        rw [String.toList_ofList]
        exact ⟨⟨c, tail, rfl, hstart⟩, hchars, hkeyword⟩
      simpa using Token.SpelledBy.identifier hname

/-! ### Reading one token -/

/-- The lexeme is a token, and it was read from a text that begins with a spelling of it. -/
def Lexeme.ReadsSpelling (lexeme : Lexeme) (cs : List Char) : Prop :=
  ∃ (token : Token) (spelling after : List Char), cs = spelling ++ after ∧
    lexeme = ⟨.ok token, spelling.length⟩ ∧ token.SpelledBy spelling

theorem readsSpelling_of_readDelimited {opening close : Char} {token : String → Token}
    {fault : LexFault} {rest : List Char} {result : Token}
    (hspelled : ∀ content : String, close ∉ content.toList →
      (token content).SpelledBy (opening :: (content.toList ++ [close])))
    (h : (readDelimited close token fault rest).outcome = .ok result) :
    (readDelimited close token fault rest).ReadsSpelling (opening :: rest) := by
  by_cases hmem : close ∈ rest
  · obtain ⟨content, after, rfl, hcontent⟩ := List.eq_append_cons_of_mem hmem
    rw [← String.toList_ofList (l := content)] at hcontent ⊢
    rw [readDelimited_append hcontent]
    exact ⟨_, opening :: ((String.ofList content).toList ++ [close]), after, by simp, by simp,
      hspelled _ hcontent⟩
  · rw [readDelimited_of_not_mem hmem] at h
    cases h

theorem readsSpelling_of_readColumnIndex {rest : List Char} {result : Token}
    (h : (readColumnIndex rest).outcome = .ok result) :
    (readColumnIndex rest).ReadsSpelling ('#' :: rest) := by
  unfold readColumnIndex at h ⊢
  dsimp only at h ⊢
  split at h
  · rename_i hdigits
    rw [if_pos hdigits]
    simp only [Bool.and_eq_true, Bool.not_eq_true', List.isEmpty_eq_false_iff,
      List.all_eq_true, decide_eq_true_eq] at hdigits
    obtain ⟨⟨hne, hall⟩, hsize⟩ := hdigits
    exact ⟨_, '#' :: rest.takeWhile isLiteralChar, rest.dropWhile isLiteralChar, by simp, rfl,
      .columnIndex hne hall hsize⟩
  · cases h

theorem readsSpelling_of_readNumber {cs : List Char} {result : Token}
    (hstart : startsNumber cs = true) (h : (readNumber cs).outcome = .ok result) :
    (readNumber cs).ReadsSpelling cs := by
  unfold readNumber at h ⊢
  dsimp only at h ⊢
  split at h
  · rename_i numeral hread
    refine ⟨_, cs.takeWhile isLiteralChar, cs.dropWhile isLiteralChar,
      List.takeWhile_append_dropWhile.symm, rfl, ?_⟩
    exact .number (fun c hc ↦ List.mem_takeWhile_imp hc)
      ((startsNumber_takeWhile cs).trans hstart) hread
  · cases h

theorem readsSpelling_readWord {c : Char} {rest : List Char} (hstart : isNameStart c = true) :
    (readWord (c :: rest)).ReadsSpelling (c :: rest) := by
  have htake : (c :: rest).takeWhile isNameChar = c :: rest.takeWhile isNameChar :=
    List.takeWhile_cons_of_pos (isNameChar_of_isNameStart hstart)
  have hchars : ∀ d ∈ (c :: rest).takeWhile isNameChar, isNameChar d = true :=
    fun d hd ↦ List.mem_takeWhile_imp hd
  rw [htake] at hchars
  refine ⟨_, (c :: rest).takeWhile isNameChar, (c :: rest).dropWhile isNameChar,
    List.takeWhile_append_dropWhile.symm, rfl, ?_⟩
  rw [htake]
  exact spelledBy_wordToken hstart hchars _

/-- A token that is read was spelled. -/
theorem readsSpelling_of_readToken {c : Char} {rest : List Char} {result : Token}
    (h : (readToken c rest).outcome = .ok result) :
    (readToken c rest).ReadsSpelling (c :: rest) := by
  unfold readToken at h ⊢
  split at h
  · rename_i sign token hsign
    obtain ⟨hmem, after, happend⟩ := exists_of_readSign? hsign
    exact ⟨token, sign, after, happend, rfl, .sign hmem⟩
  · split_ifs at h ⊢ with hquote hbracket hindex hnumber hname
    · exact readsSpelling_of_readDelimited (fun content hcontent ↦ .text hquote hcontent) h
    · subst hbracket
      exact readsSpelling_of_readDelimited (fun content hcontent ↦ .columnName hcontent) h
    · subst hindex
      exact readsSpelling_of_readColumnIndex h
    · exact readsSpelling_of_readNumber hnumber h
    · exact readsSpelling_readWord hname

/-- What is read for a token is a spelling of it. -/
theorem spelledBy_of_readToken {c : Char} {tail rest : List Char} {token : Token}
    (h : readToken c (tail ++ rest) = ⟨.ok token, (c :: tail).length⟩) :
    token.SpelledBy (c :: tail) := by
  obtain ⟨read, spelling, after, happend, hread, hspelled⟩ :=
    readsSpelling_of_readToken (congrArg Lexeme.outcome h)
  obtain ⟨htoken, hlength⟩ := Lexeme.mk.inj (h.symm.trans hread)
  obtain rfl := Except.ok.inj htoken
  rw [← List.cons_append] at happend
  rwa [List.append_inj_left happend hlength]

/-! ### Reading all tokens -/

/-- Every text begins with blanks, none or more, and goes on otherwise. -/
theorem exists_gap (cs : List Char) :
    ∃ gap body, cs = gap ++ body ∧ Blank gap ∧ Boundary isBlank body := by
  refine ⟨cs.takeWhile isBlank, cs.dropWhile isBlank, List.takeWhile_append_dropWhile.symm,
    fun c hc ↦ List.mem_takeWhile_imp hc, fun c hc ↦ ?_⟩
  have hhead := List.head?_dropWhile_not isBlank cs
  rw [Option.mem_def.mp hc] at hhead
  exact hhead

/-- Induction along the tokens of a text: it is blank, or behind blanks it has a character where no
token can be read, or behind blanks it has a token and goes on. -/
theorem readingInduction {motive : List Char → Prop}
    (blank : ∀ gap, Blank gap → motive gap)
    (fault : ∀ gap c rest fault, Blank gap → isBlank c = false →
      (readToken c rest).outcome = .error fault → motive (gap ++ c :: rest))
    (token : ∀ gap c tail rest token, Blank gap → isBlank c = false →
      readToken c (tail ++ rest) = ⟨.ok token, (c :: tail).length⟩ → motive rest →
      motive (gap ++ (c :: tail ++ rest)))
    (cs : List Char) : motive cs := by
  induction hlength : cs.length using Nat.strong_induction_on generalizing cs with
  | h n ih =>
    subst hlength
    obtain ⟨gap, body, rfl, hgap, hbody⟩ := exists_gap cs
    cases body with
    | nil =>
      rw [List.append_nil]
      exact blank gap hgap
    | cons c rest =>
      cases houtcome : (readToken c rest).outcome with
      | error e => exact fault gap c rest e hgap (hbody c rfl) houtcome
      | ok result =>
        obtain ⟨read, spelling, after, happend, hread, -⟩ :=
          readsSpelling_of_readToken houtcome
        cases spelling with
        | nil =>
          have hpos := readToken_length_pos houtcome
          rw [hread] at hpos
          exact absurd hpos (Nat.lt_irrefl 0)
        | cons d tail =>
          obtain ⟨rfl, rfl⟩ := List.cons.inj happend
          have hlt : after.length < (gap ++ (c :: tail ++ after)).length := by
            simp only [List.length_append, List.length_cons]
            omega
          exact token gap c tail after read hgap (hbody c rfl) hread (ih _ hlt after rfl)

namespace TextCursor

theorem tokens_blank {gap : List Char} (hgap : Blank gap) (offset : Nat) :
    tokens ⟨gap, offset⟩ = .ok ⟨[], offset + gap.length⟩ :=
  tokens_of_cut (.finish hgap)

theorem tokens_fault {gap rest : List Char} {c : Char} {fault : LexFault} (hgap : Blank gap)
    (hc : isBlank c = false) (hread : (readToken c rest).outcome = .error fault) (offset : Nat) :
    tokens ⟨gap ++ c :: rest, offset⟩ = .error ⟨fault, offset + gap.length⟩ := by
  have hskip := skipBlanks_append hgap (c :: rest) (by simpa using hc) offset
  have hfault : (next ⟨gap ++ c :: rest, offset⟩).1 = .error ⟨fault, offset + gap.length⟩ := by
    simp only [next, hskip, hread]
  rw [tokens]
  split <;> rename_i hnext <;> rw [hnext] at hfault <;> cases hfault
  rfl

theorem tokens_token {gap tail rest : List Char} {c : Char} {token : Token} (hgap : Blank gap)
    (hc : isBlank c = false)
    (hread : readToken c (tail ++ rest) = ⟨.ok token, (c :: tail).length⟩) (offset : Nat) :
    tokens ⟨gap ++ (c :: tail ++ rest), offset⟩ =
      (tokens ⟨rest, offset + gap.length + (c :: tail).length⟩).map fun list ↦
        { list with tokens := ⟨token, offset + gap.length⟩ :: list.tokens } := by
  rw [tokens]
  split <;> rename_i hnext <;> rw [next_token hgap hc hread] at hnext <;> cases hnext
  rfl

/-- Whatever is tokenized is cut into blanks and tokens. -/
theorem cut_of_tokens {cs : List Char} {offset : Nat} {list : TokenList}
    (h : tokens ⟨cs, offset⟩ = .ok list) : Cut offset cs list.tokens list.finish := by
  induction cs using readingInduction generalizing offset list with
  | blank gap hgap =>
    rw [tokens_blank hgap] at h
    obtain rfl := Except.ok.inj h
    exact .finish hgap
  | fault gap c rest fault hgap hc hread =>
    rw [tokens_fault hgap hc hread] at h
    cases h
  | token gap c tail rest token hgap hc hread ih =>
    rw [tokens_token hgap hc hread] at h
    obtain ⟨others, hothers, rfl⟩ := map_eq_ok_iff.mp h
    exact .token hgap hc hread (ih hothers)

end TextCursor

end ColumnFormula
