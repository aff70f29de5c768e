import ColumnFormula.Proofs.Source.Padding
import ColumnFormula.Proofs.Source.Script

/-!
# Joining texts to a script

The splitter follows quotes and brackets character by character, the lexer reads whole tokens, and
both see the same literals. A text that the lexer accepts stays in one piece if each of its newlines
is enclosed by a text or a column name (`closes_of_newlinesEnclosed`): between tokens there are
blanks, and no spelling leaves a quote or a bracket open. So joined texts are found again, trimmed
and without the blank ones, whatever separators stand between them (`splitStatements_join`), and the
script compiles as the texts do one by one (`compileScript_join`).
-/

set_option autoImplicit false
set_option relaxedAutoImplicit false

namespace ColumnFormula

/-! ### Enclosed newlines -/

/-- What a text or a column name holds between its delimiters. -/
def Token.enclosed? : Token → Option String
  | .text content => some content
  | .columnName name => some name
  | _ => none

/-- The place lies between the delimiters of a text in quotes or of a name in brackets. -/
def LocatedToken.Encloses (located : LocatedToken) (place : Nat) : Prop :=
  ∃ content ∈ located.token.enclosed?,
    located.offset < place ∧ place ≤ located.offset + content.length

instance (located : LocatedToken) (place : Nat) : Decidable (located.Encloses place) :=
  inferInstanceAs (Decidable (∃ content ∈ located.token.enclosed?, _))

/-- The lexer accepts the text, and every newline is enclosed by one of its tokens. -/
def NewlinesEnclosed (text : String) : Prop :=
  ∃ list, tokenize text = .ok list ∧
    ∀ place : Nat, text.toList[place]? = some '\n' →
      ∃ located ∈ list.tokens, located.Encloses place

instance (text : String) : Decidable (NewlinesEnclosed text) :=
  match htokens : tokenize text with
  | .error _ => isFalse (by rintro ⟨list, hlist, -⟩; cases htokens.symm.trans hlist)
  | .ok list =>
    decidable_of_iff
      (∀ place < text.toList.length, text.toList[place]? = some '\n' →
        ∃ located ∈ list.tokens, located.Encloses place)
      ⟨fun h ↦ ⟨list, htokens, fun place hplace ↦
          h place (List.getElem?_eq_some_iff.mp hplace).1 hplace⟩,
        fun ⟨_, hlist, h⟩ place _ hplace ↦
          Except.ok.inj (htokens.symm.trans hlist) ▸ h place hplace⟩

/-- The closing delimiter of a token stands behind every place that the token encloses. -/
theorem LocatedToken.Encloses.lt_of_spelledBy {located : LocatedToken} {place : Nat}
    (h : located.Encloses place) {spelling : List Char}
    (hspelled : located.token.SpelledBy spelling) :
    place < located.offset + spelling.length := by
  have hsigns : ∀ entry ∈ Token.signs, entry.2.enclosed? = none := by decide
  obtain ⟨content, hcontent, -, hle⟩ := h
  generalize located.token = token at hcontent hspelled
  cases hspelled with
  | sign hsign =>
    rw [hsigns _ hsign] at hcontent
    cases hcontent
  | text | columnName =>
    obtain rfl := Option.some.inj hcontent
    simp only [List.length_cons, List.length_append, String.length_toList]
    omega
  | _ => cases hcontent

/-- Every newline of a text that stands at the offset is enclosed by one of the tokens. -/
def EncloseNewlines (tokens : List LocatedToken) (offset : Nat) (cs : List Char) : Prop :=
  ∀ place : Nat, cs[place]? = some '\n' → ∃ located ∈ tokens, located.Encloses (offset + place)

namespace EncloseNewlines

variable {tokens : List LocatedToken} {offset : Nat}

/-- No newline stands in front of all tokens. -/
theorem not_mem_gap {gap cs : List Char} (h : EncloseNewlines tokens offset (gap ++ cs))
    (hbehind : ∀ located ∈ tokens, offset + gap.length ≤ located.offset) : '\n' ∉ gap := by
  intro hmem
  obtain ⟨place, hplace⟩ := List.mem_iff_getElem?.mp hmem
  have hlt := (List.getElem?_eq_some_iff.mp hplace).1
  obtain ⟨located, hlocated, content, -, hoffset, -⟩ :=
    h place (by rw [List.getElem?_append_left hlt, hplace])
  have hle := hbehind located hlocated
  omega

/-- The newlines behind a token are enclosed by the other tokens. -/
theorem behind {located : LocatedToken} {front rest : List Char}
    (h : EncloseNewlines (located :: tokens) offset (front ++ rest))
    (hfront : ∀ place, located.Encloses place → place < offset + front.length) :
    EncloseNewlines tokens (offset + front.length) rest := by
  intro place hplace
  have hwhole : (front ++ rest)[front.length + place]? = some '\n' := by
    rw [List.getElem?_append_right (Nat.le_add_right _ _), Nat.add_sub_cancel_left, hplace]
  obtain ⟨other, hother, hencloses⟩ := h _ hwhole
  rw [← Nat.add_assoc] at hencloses
  rcases List.mem_cons.mp hother with rfl | hother
  · have hlt := hfront _ hencloses
    omega
  · exact ⟨other, hother, hencloses⟩

end EncloseNewlines

/-- From the tokens to the zones: a text that is cut with every newline enclosed stays together. -/
theorem Cut.closes {offset finish : Nat} {cs : List Char} {tokens : List LocatedToken}
    (h : Cut offset cs tokens finish) (hnewlines : EncloseNewlines tokens offset cs) :
    Zone.plain.Closes cs := by
  induction h with
  | @finish offset gap hgap =>
    rw [← List.append_nil gap] at hnewlines
    exact closes_of_blank hgap (hnewlines.not_mem_gap (by simp))
  | @token offset finish gap tail rest c token tokens hgap hc hread hrest ih =>
    have hspelled := spelledBy_of_readToken hread
    have hgapless : '\n' ∉ gap := by
      refine hnewlines.not_mem_gap (List.forall_mem_cons.mpr ⟨Nat.le_refl _, fun located h ↦ ?_⟩)
      exact (Nat.le_add_right _ _).trans (hrest.offset_le located h)
    have hbehind : EncloseNewlines tokens (offset + (gap ++ (c :: tail)).length) rest := by
      rw [← List.append_assoc] at hnewlines
      refine hnewlines.behind fun place hencloses ↦ ?_
      have hlt := hencloses.lt_of_spelledBy hspelled
      rwa [Nat.add_assoc, ← List.length_append] at hlt
    rw [List.length_append, ← Nat.add_assoc] at hbehind
    exact (closes_of_blank hgap hgapless).append (hspelled.closes.append (ih hbehind))

theorem closes_of_newlinesEnclosed {text : String} (h : NewlinesEnclosed text) :
    Zone.plain.Closes text.toList := by
  obtain ⟨list, hlist, hnewlines⟩ := h
  refine (TextCursor.cut_of_tokens hlist).closes fun place hplace ↦ ?_
  rw [Nat.zero_add]
  exact hnewlines place hplace

/-- In a text that the lexer accepts no semicolon stands outside of quotes and brackets, so there
are only newlines to enclose. -/
theorem separatorsEnclosed_of_newlinesEnclosed {text : String} (h : NewlinesEnclosed text) :
    SeparatorsEnclosed text :=
  separatorsEnclosed_iff_keeps.mpr (closes_of_newlinesEnclosed h).keeps

/-! ### Pieces between separators -/

/-- Blanks and semicolons between two texts, at least one of them a semicolon or a newline. -/
structure Separator where
  chars : List Char
  blank_or_semicolon : ∀ c ∈ chars, isBlank c = true ∨ c = ';'
  separates : ∃ c ∈ chars, c = ';' ∨ c = '\n'

/-- A semicolon and a blank. -/
def Separator.semicolon : Separator where
  chars := [';', ' ']
  blank_or_semicolon c hc := by
    rcases List.mem_cons.mp hc with rfl | hc
    · exact .inr rfl
    · obtain rfl := List.mem_singleton.mp hc
      exact .inl (by decide)
  separates := ⟨';', List.mem_cons_self, .inl rfl⟩

/-- The statements of a script before they are compiled: trimmed pieces that are not empty. -/
def statementPieces (cs : List Char) : List (List Char) :=
  ((cutPieces .plain cs).map trim).filter (!·.isEmpty)

theorem splitStatements_eq (cs : List Char) :
    splitStatements (.ofList cs) = (statementPieces cs).map .ofList := by
  rw [splitStatements, String.toList_ofList, statementPieces]

theorem exists_cutPieces_eq_cons (zone : Zone) (cs : List Char) :
    ∃ piece pieces, cutPieces zone cs = piece :: pieces := by
  cases cs with
  | nil => exact ⟨[], [], rfl⟩
  | cons c rest =>
    rw [cutPieces]
    split
    · exact ⟨_, _, rfl⟩
    · split <;> exact ⟨_, _, rfl⟩

theorem statementPieces_separator {c : Char} (hc : Zone.plain.separates c = true)
    (cs : List Char) : statementPieces (c :: cs) = statementPieces cs := by
  rw [statementPieces, cutPieces, if_pos hc]
  rfl

/-- Blanks and semicolons in front of a script make no statement. -/
theorem statementPieces_layout_append {front : List Char}
    (hfront : ∀ c ∈ front, isBlank c = true ∨ c = ';') (cs : List Char) :
    statementPieces (front ++ cs) = statementPieces cs := by
  induction front with
  | nil => rfl
  | cons c front ih =>
    have hrest := ih fun d hd ↦ hfront d (List.mem_cons_of_mem c hd)
    by_cases hseparates : Zone.plain.separates c = true
    · rw [List.cons_append, statementPieces_separator hseparates, hrest]
    · have hblank : isBlank c = true := by
        rcases hfront c List.mem_cons_self with hc | rfl
        · exact hc
        · exact absurd rfl hseparates
      have hsingle : Blank [c] := List.forall_mem_singleton.mpr hblank
      have htrim : ∀ piece, trim (c :: piece) = trim piece :=
        fun piece ↦ trim_blank_append hsingle piece
      obtain ⟨piece, pieces, hpieces⟩ := exists_cutPieces_eq_cons .plain (front ++ cs)
      rw [← hrest, List.cons_append, statementPieces, cutPieces, if_neg hseparates,
        step_of_isBlank hblank, hpieces, statementPieces, hpieces]
      dsimp only
      rw [List.map_cons, htrim, ← List.map_cons]

/-- A text that meets no separator is one statement, or none if it is blank. -/
theorem statementPieces_of_keeps {cs : List Char} (h : Zone.plain.Keeps cs) :
    statementPieces cs = [trim cs].filter (!·.isEmpty) := by
  rw [statementPieces, cutPieces_of_keeps h]
  rfl

theorem statementPieces_of_closes {cs : List Char} (h : Zone.plain.Closes cs) :
    statementPieces cs = [trim cs].filter (!·.isEmpty) :=
  statementPieces_of_keeps h.keeps

/-- A text that stays together is cut off where a separator is found behind it. -/
theorem statementPieces_append {cs layout : List Char} (hcs : Zone.plain.Closes cs)
    (hlayout : ∀ c ∈ layout, isBlank c = true ∨ c = ';')
    (hseparates : ∃ c ∈ layout, c = ';' ∨ c = '\n') (rest : List Char) :
    statementPieces (cs ++ (layout ++ rest)) = statementPieces cs ++ statementPieces rest := by
  induction layout generalizing cs with
  | nil =>
    obtain ⟨c, hc, -⟩ := hseparates
    cases hc
  | cons c layout ih =>
    have hbehind := fun d hd ↦ hlayout d (List.mem_cons_of_mem c hd)
    by_cases hc : Zone.plain.separates c = true
    · have hlater := statementPieces_layout_append hbehind rest
      rw [List.cons_append, statementPieces, cutPieces_append hcs hc, List.map_cons,
        ← List.singleton_append, List.filter_append, ← statementPieces_of_closes hcs, ← hlater]
      rfl
    · -- A blank that does not separate belongs to the text in front of it.
      obtain ⟨hsemicolon, hnewline⟩ : c ≠ ';' ∧ c ≠ '\n' := by
        simpa [Zone.separates] using hc
      have hblank : isBlank c = true :=
        (hlayout c List.mem_cons_self).resolve_right hsemicolon
      have hlater : ∃ d ∈ layout, d = ';' ∨ d = '\n' := by
        obtain ⟨d, hd, hd'⟩ := hseparates
        rcases List.mem_cons.mp hd with rfl | hd
        · exact absurd hd' (by simp [hsemicolon, hnewline])
        · exact ⟨d, hd, hd'⟩
      have hpadded : Zone.plain.Closes (cs ++ [c]) :=
        hcs.append ⟨by simpa using hc, step_of_isBlank hblank⟩
      have htrim : trim (cs ++ [c]) = trim cs :=
        trim_append_blank (List.forall_mem_singleton.mpr hblank) cs
      have hstep := ih hpadded hbehind hlater
      rw [statementPieces_of_closes hpadded, htrim, ← statementPieces_of_closes hcs] at hstep
      rwa [List.append_assoc] at hstep

/-! ### Joined texts -/

/-- The texts from the given number on, with separators between them. -/
def joinTexts (separator : Nat → Separator) (number : Nat) : List String → List Char
  | [] => []
  | [text] => text.toList
  | text :: rest =>
    text.toList ++ ((separator number).chars ++ joinTexts separator (number + 1) rest)

/-- The text without the blanks at either end. -/
def trimText (text : String) : String := .ofList (trim text.toList)

instance (cs : List Char) : Decidable (Blank cs) :=
  List.decidableBAll (fun c ↦ isBlank c = true) cs

/-- The splitter finds the texts that were joined, trimmed and without the blank ones. -/
theorem splitStatements_join (separator : Nat → Separator) {texts : List String}
    (h : ∀ text ∈ texts, NewlinesEnclosed text) (number : Nat) :
    splitStatements (.ofList (joinTexts separator number texts)) =
      (texts.filter (¬Blank ·.toList)).map trimText := by
  have hsingle : ∀ text : String,
      ([trim text.toList].filter (!·.isEmpty)).map String.ofList =
        ([text].filter (¬Blank ·.toList)).map trimText := by
    intro text
    by_cases hblank : Blank text.toList
    · simp [hblank, trim_eq_nil_iff]
    · simp [hblank, trim_eq_nil_iff, trimText]
  rw [splitStatements_eq]
  induction texts generalizing number with
  | nil => rfl
  | cons text rest ih =>
    have hcloses := closes_of_newlinesEnclosed (h text List.mem_cons_self)
    cases rest with
    | nil => rw [joinTexts, statementPieces_of_closes hcloses, hsingle]
    | cons next rest =>
      have hrest := ih (fun t ht ↦ h t (List.mem_cons_of_mem text ht)) (number + 1)
      rw [joinTexts, statementPieces_append hcloses (separator number).blank_or_semicolon
        (separator number).separates, List.map_append, hrest, statementPieces_of_closes hcloses,
        hsingle, ← List.map_append, ← List.filter_append, List.singleton_append]
      exact nofun

/-! ### Compiling statements in order -/

/-- Statements compile if every one of them does. -/
theorem compileStatements_eq_ok_iff {line : Nat} {texts : List String}
    {statements : List (Statement Reference)} :
    compileStatements line texts = .ok statements ↔
      List.Forall₂ (fun text statement ↦ compileStatement text = .ok statement) texts
        statements := by
  induction texts generalizing line statements with
  | nil =>
    rw [compileStatements, List.forall₂_nil_left_iff]
    exact ⟨fun h ↦ (Except.ok.inj h).symm, fun h ↦ congrArg _ h.symm⟩
  | cons text rest ih =>
    rw [compileStatements, List.forall₂_cons_left_iff]
    cases hfirst : compileStatement text with
    | error fault => simp
    | ok first =>
      dsimp only
      rw [map_eq_ok_iff]
      constructor
      · rintro ⟨others, hothers, rfl⟩
        exact ⟨first, others, rfl, ih.mp hothers, rfl⟩
      · rintro ⟨_, others, ⟨⟩, hothers, rfl⟩
        exact ⟨others, ih.mpr hothers, rfl⟩

/-- Otherwise the error is that of the first statement that does not compile, with its number. -/
theorem compileStatements_eq_error_iff {line : Nat} {texts : List String} {error : CompileError} :
    compileStatements line texts = .error error ↔
      ∃ before text behind fault, texts = before ++ text :: behind ∧
        (∀ earlier ∈ before, ∃ statement, compileStatement earlier = .ok statement) ∧
        compileStatement text = .error fault ∧
        error = .statement (line + before.length) text fault := by
  induction texts generalizing line with
  | nil => simp [compileStatements]
  | cons text rest ih =>
    rw [compileStatements]
    cases hfirst : compileStatement text with
    | error fault =>
      dsimp only
      constructor
      · intro h
        exact ⟨[], text, rest, fault, rfl, by simp, hfirst, (Except.error.inj h).symm⟩
      · rintro ⟨before, failing, behind, found, htexts, hbefore, hfailing, rfl⟩
        cases before with
        | nil =>
          obtain ⟨rfl, -⟩ := List.cons.inj htexts
          rw [hfirst] at hfailing
          obtain rfl := Except.error.inj hfailing
          rfl
        | cons earlier before =>
          obtain ⟨rfl, -⟩ := List.cons.inj htexts
          obtain ⟨statement, hstatement⟩ := hbefore text List.mem_cons_self
          rw [hfirst] at hstatement
          cases hstatement
    | ok first =>
      dsimp only
      rw [map_eq_error_iff, ih]
      constructor
      · rintro ⟨before, failing, behind, fault, rfl, hbefore, hfailing, rfl⟩
        refine ⟨text :: before, failing, behind, fault, rfl, ?_, hfailing, ?_⟩
        · intro earlier hearlier
          rcases List.mem_cons.mp hearlier with rfl | hearlier
          · exact ⟨first, hfirst⟩
          · exact hbefore earlier hearlier
        · rw [List.length_cons, Nat.add_assoc, Nat.add_comm 1]
      · rintro ⟨before, failing, behind, fault, htexts, hbefore, hfailing, rfl⟩
        cases before with
        | nil =>
          obtain ⟨rfl, -⟩ := List.cons.inj htexts
          rw [hfirst] at hfailing
          cases hfailing
        | cons earlier before =>
          obtain ⟨rfl, rfl⟩ := List.cons.inj htexts
          refine ⟨before, failing, behind, fault, rfl,
            fun t ht ↦ hbefore t (List.mem_cons_of_mem _ ht), hfailing, ?_⟩
          rw [List.length_cons, Nat.add_assoc, Nat.add_comm 1]

theorem compileStatement_trimText_eq_ok_iff {text : String} {statement : Statement Reference} :
    compileStatement (trimText text) = .ok statement ↔ compileStatement text = .ok statement := by
  rw [trimText, compileStatement_trim_eq_ok_iff, String.ofList_toList]

/-- Texts that the lexer accepts, with every newline enclosed, may be joined by any separators. The
splitter finds them again, trimmed and without the blank ones. The script compiles if each of these
compiles, and to what they compile to; otherwise its error is that of the first text that does not
compile, with its number and the error of the trimmed text. -/
theorem compileScript_join (separator : Nat → Separator) (texts : List String)
    (h : ∀ text ∈ texts, NewlinesEnclosed text) :
    let script := String.ofList (joinTexts separator 0 texts)
    let nonblank := texts.filter (¬Blank ·.toList)
    splitStatements script = nonblank.map trimText ∧
    (∀ statements, compileScript script = .ok statements ↔
      List.Forall₂ (fun text statement ↦ compileStatement text = .ok statement) nonblank
        statements) ∧
    (∀ error, compileScript script = .error error ↔
      ∃ before text behind fault, nonblank = before ++ text :: behind ∧
        (∀ earlier ∈ before, ∃ statement, compileStatement earlier = .ok statement) ∧
        compileStatement (trimText text) = .error fault ∧
        error = .statement (before.length + 1) (trimText text) fault) := by
  intro script nonblank
  have hsplit : splitStatements script = nonblank.map trimText := splitStatements_join separator h 0
  refine ⟨hsplit, fun statements ↦ ?_, fun error ↦ ?_⟩
  · rw [compileScript, hsplit, compileStatements_eq_ok_iff, List.forall₂_map_left_iff]
    simp only [compileStatement_trimText_eq_ok_iff]
  · rw [compileScript, hsplit, compileStatements_eq_error_iff]
    constructor
    · rintro ⟨before, text, behind, fault, hnonblank, hbefore, htext, rfl⟩
      obtain ⟨earlier, later, hsame, rfl, hlater⟩ := List.map_eq_append_iff.mp hnonblank
      obtain ⟨first, others, rfl, rfl, rfl⟩ := List.map_eq_cons_iff.mp hlater
      refine ⟨earlier, first, others, fault, hsame, fun t ht ↦ ?_, htext, ?_⟩
      · obtain ⟨statement, hstatement⟩ := hbefore _ (List.mem_map_of_mem ht)
        exact ⟨statement, compileStatement_trimText_eq_ok_iff.mp hstatement⟩
      · rw [List.length_map, Nat.add_comm]
    · rintro ⟨before, text, behind, fault, hnonblank, hbefore, htext, rfl⟩
      refine ⟨before.map trimText, trimText text, behind.map trimText, fault, ?_, ?_, htext, ?_⟩
      · rw [hnonblank, List.map_append, List.map_cons]
      · intro trimmed htrimmed
        obtain ⟨earlier, hearlier, rfl⟩ := List.mem_map.mp htrimmed
        obtain ⟨statement, hstatement⟩ := hbefore earlier hearlier
        exact ⟨statement, compileStatement_trimText_eq_ok_iff.mpr hstatement⟩
      · rw [List.length_map, Nat.add_comm]

/-- Separators in both kinds of literals, and a blank text between two others. -/
theorem compileScript_join_literals :
    let texts := ["[a;'b] = \"x\n;'y\" ", " ", "NEW('it') = 'it''s;'"]
    (∀ text ∈ texts, NewlinesEnclosed text) ∧
      splitStatements (.ofList (joinTexts (fun _ ↦ .semicolon) 0 texts)) =
        ["[a;'b] = \"x\n;'y\"", "NEW('it') = 'it''s;'"] := by
  intro texts
  have henclosed : ∀ text ∈ texts, NewlinesEnclosed text := by decide +kernel
  have hpieces : (texts.filter (¬Blank ·.toList)).map trimText =
      ["[a;'b] = \"x\n;'y\"", "NEW('it') = 'it''s;'"] := by decide +kernel
  exact ⟨henclosed, (compileScript_join _ texts henclosed).1.trans hpieces⟩

end ColumnFormula
