import ColumnFormula.Proofs.Token.Cutting
import ColumnFormula.Proofs.Token.Spelling
import ColumnFormula.Script

/-!
# Zones of a script

The splitter knows at each place of a script whether it is in quotes, in brackets or outside. A text
that meets no separator outside is not cut (`Zone.Keeps`), and if it leaves all quotes and brackets
closed, then what follows is cut as if it stood alone (`Zone.Closes`). Both hold of the texts that
scripts are made of: of blanks without a newline and of every spelling of a token, since what quotes
or brackets enclose is never looked at.
-/

set_option autoImplicit false
set_option relaxedAutoImplicit false

namespace ColumnFormula

/-! ### Texts without separators -/

/-- From a place in the zone on, the text meets no separator. -/
def Zone.Keeps : Zone → List Char → Prop
  | _, [] => True
  | zone, c :: rest => zone.separates c = false ∧ (zone.step c).Keeps rest

/-- A text that meets no separator is one piece. -/
theorem cutPieces_of_keeps {zone : Zone} {cs : List Char} (h : zone.Keeps cs) :
    cutPieces zone cs = [cs] := by
  induction cs generalizing zone with
  | nil => rfl
  | cons c rest ih =>
    rw [cutPieces, h.1, ih h.2]
    rfl

/-- The zone behind the first characters of a text. -/
def zoneAt (zone : Zone) (cs : List Char) (place : Nat) : Zone :=
  (cs.take place).foldl Zone.step zone

theorem keeps_iff {zone : Zone} {cs : List Char} :
    zone.Keeps cs ↔ ∀ (place : Nat) (c : Char), cs[place]? = some c →
      (zoneAt zone cs place).separates c = false := by
  induction cs generalizing zone with
  | nil => simp [Zone.Keeps]
  | cons d rest ih =>
    rw [Zone.Keeps, ih]
    constructor
    · rintro ⟨hfirst, hrest⟩ place c hplace
      cases place with
      | zero =>
        obtain rfl := Option.some.inj hplace
        exact hfirst
      | succ place => exact hrest place c hplace
    · intro h
      exact ⟨h 0 d rfl, fun place c hplace ↦ h (place + 1) c hplace⟩

/-- Every semicolon and every newline of the text is in quotes or in brackets. -/
def SeparatorsEnclosed (text : String) : Prop :=
  ∀ (place : Nat) (c : Char), text.toList[place]? = some c → c = ';' ∨ c = '\n' →
    zoneAt .plain text.toList place ≠ .plain

theorem separatorsEnclosed_iff_keeps {text : String} :
    SeparatorsEnclosed text ↔ Zone.plain.Keeps text.toList := by
  rw [keeps_iff]
  constructor
  · intro h place c hplace
    by_cases hseparator : c = ';' ∨ c = '\n'
    · have hzone := h place c hplace hseparator
      simp [Zone.separates, hzone]
    · obtain ⟨hsemicolon, hnewline⟩ := not_or.mp hseparator
      simp [Zone.separates, hsemicolon, hnewline]
  · intro h place c hplace hseparator hplain
    have hkept := h place c hplace
    rw [hplain] at hkept
    rcases hseparator with rfl | rfl <;> cases hkept

/-! ### Texts that stay together -/

/-- From a place in the zone on, the text meets no separator, and it ends outside of quotes and
brackets. -/
def Zone.Closes : Zone → List Char → Prop
  | zone, [] => zone = .plain
  | zone, c :: rest => zone.separates c = false ∧ (zone.step c).Closes rest

theorem Zone.Closes.append {zone : Zone} {first second : List Char} (hfirst : zone.Closes first)
    (hsecond : Zone.plain.Closes second) : zone.Closes (first ++ second) := by
  induction first generalizing zone with
  | nil =>
    obtain rfl : zone = .plain := hfirst
    exact hsecond
  | cons c rest ih => exact ⟨hfirst.1, ih hfirst.2⟩

theorem Zone.Closes.append_keeps {zone : Zone} {first second : List Char}
    (hfirst : zone.Closes first) (hsecond : Zone.plain.Keeps second) :
    zone.Keeps (first ++ second) := by
  induction first generalizing zone with
  | nil =>
    obtain rfl : zone = .plain := hfirst
    exact hsecond
  | cons c rest ih => exact ⟨hfirst.1, ih hfirst.2⟩

theorem Zone.Closes.keeps {zone : Zone} {cs : List Char} (h : zone.Closes cs) :
    zone.Keeps cs := by
  have hnone : Zone.plain.Keeps [] := trivial
  rw [← List.append_nil cs]
  exact h.append_keeps hnone

/-- A piece that closes is cut off at the separator behind it. -/
theorem cutPieces_append {zone : Zone} {cs rest : List Char} {separator : Char}
    (h : zone.Closes cs) (hseparator : Zone.plain.separates separator = true) :
    cutPieces zone (cs ++ separator :: rest) = cs :: cutPieces .plain rest := by
  induction cs generalizing zone with
  | nil =>
    obtain rfl : zone = .plain := h
    rw [List.nil_append, cutPieces, if_pos hseparator]
  | cons c cs ih =>
    rw [List.cons_append, cutPieces, h.1, ih h.2]
    rfl

theorem step_of_not_mem {c : Char} (h : c ∉ ['\'', '"', '[']) : Zone.plain.step c = .plain := by
  simp only [List.mem_cons, List.not_mem_nil, or_false, not_or] at h
  obtain ⟨hsingle, hdouble, hbracket⟩ := h
  simp [Zone.step, hsingle, hdouble, hbracket]

/-- Characters that neither separate nor open quotes or brackets. -/
theorem closes_of_forall {cs : List Char}
    (h : ∀ c ∈ cs, c ∉ ['\'', '"', '[', ';', '\n']) : Zone.plain.Closes cs := by
  induction cs with
  | nil => rfl
  | cons c rest ih =>
    have hc : c ∉ ['\'', '"', '['] ++ [';', '\n'] := h c List.mem_cons_self
    rw [List.mem_append, not_or] at hc
    obtain ⟨hopening, hseparator⟩ := hc
    simp only [List.mem_cons, List.not_mem_nil, or_false, not_or] at hseparator
    refine ⟨by simp [Zone.separates, hseparator], ?_⟩
    rw [step_of_not_mem hopening]
    exact ih fun d hd ↦ h d (List.mem_cons_of_mem c hd)

theorem closes_quoted {quote : Char} {content : List Char} (h : quote ∉ content) :
    (Zone.quoted quote).Closes (content ++ [quote]) := by
  induction content with
  | nil => exact ⟨rfl, by simp [Zone.step, Zone.Closes]⟩
  | cons c rest ih =>
    have hc : c ≠ quote := fun heq ↦ h (heq ▸ List.mem_cons_self)
    have hstep : (Zone.quoted quote).step c = .quoted quote := if_neg hc
    refine ⟨rfl, ?_⟩
    rw [hstep]
    exact ih fun hmem ↦ h (List.mem_cons_of_mem c hmem)

theorem closes_bracketed {content : List Char} (h : ']' ∉ content) :
    Zone.bracketed.Closes (content ++ [']']) := by
  induction content with
  | nil => exact ⟨rfl, rfl⟩
  | cons c rest ih =>
    have hc : c ≠ ']' := fun heq ↦ h (heq ▸ List.mem_cons_self)
    have hstep : Zone.bracketed.step c = .bracketed := if_neg hc
    refine ⟨rfl, ?_⟩
    rw [hstep]
    exact ih fun hmem ↦ h (List.mem_cons_of_mem c hmem)

/-! ### Tokens and blanks stay together -/

/-- No blank opens quotes or brackets. -/
theorem step_of_isBlank {c : Char} (hc : isBlank c = true) : Zone.plain.step c = .plain := by
  have hopening : ∀ d ∈ ['\'', '"', '['], (!isBlank d) = true := List.all_eq_true.mp (by decide)
  exact step_of_not_mem fun hmem ↦ absurd (hopening c hmem) (by simp [hc])

theorem closes_of_blank {gap : List Char} (hgap : Blank gap) (hnewline : '\n' ∉ gap) :
    Zone.plain.Closes gap := by
  have hother : ∀ c ∈ ['\'', '"', '[', ';'], (!isBlank c) = true :=
    List.all_eq_true.mp (by decide)
  refine closes_of_forall fun c hc hmem ↦ ?_
  rcases List.mem_append.mp (show c ∈ ['\'', '"', '[', ';'] ++ ['\n'] from hmem) with hmem | hmem
  · exact absurd (hother c hmem) (by simp [hgap c hc])
  · exact hnewline (List.mem_singleton.mp hmem ▸ hc)

theorem closes_of_literal {cs : List Char} (h : ∀ c ∈ cs, isLiteralChar c = true) :
    Zone.plain.Closes cs := by
  have hreserved : ∀ c ∈ ['\'', '"', '[', ';', '\n'], isReserved c = true :=
    List.all_eq_true.mp (by decide)
  refine closes_of_forall fun c hc hmem ↦ ?_
  have hfree := isReserved_of_isLiteralChar (h c hc)
  rw [hreserved c hmem] at hfree
  cases hfree

/-- The spelling of a token stays together. -/
theorem Token.SpelledBy.closes {token : Token} {spelling : List Char}
    (h : token.SpelledBy spelling) : Zone.plain.Closes spelling := by
  have hname : ∀ {word : List Char}, (∀ c ∈ word, isNameChar c = true) →
      Zone.plain.Closes word :=
    fun hword ↦ closes_of_literal fun c hc ↦ isLiteralChar_of_isNameChar (hword c hc)
  cases h with
  | number hliteral => exact closes_of_literal hliteral
  | text hquote hcontent =>
    rcases hquote with rfl | rfl
    · exact ⟨rfl, closes_quoted hcontent⟩
    · exact ⟨rfl, closes_quoted hcontent⟩
  | boolean value => cases value <;> exact hname (List.all_eq_true.mp (by decide +kernel))
  | nil => exact hname (List.all_eq_true.mp (by decide +kernel))
  | identifier hword => exact hname hword.isNameChar
  | columnName hbracket => exact ⟨rfl, closes_bracketed hbracket⟩
  | columnIndex hne hdigits =>
    have hrest := closes_of_literal fun c hc ↦ isLiteralChar_of_isDigit (hdigits c hc)
    exact ⟨rfl, hrest⟩
  | new hword =>
    exact hname fun c hc ↦ isNameChar_of_isNameStart (isNameStart_of_isNewWord hword hc)
  | sign hsign =>
    have hsigns : ∀ entry ∈ Token.signs,
        entry.1.all (fun c ↦ decide (c ∉ ['\'', '"', '[', ';', '\n'])) = true := by decide
    exact closes_of_forall fun c hc ↦
      of_decide_eq_true (List.all_eq_true.mp (hsigns _ hsign) c hc)

end ColumnFormula
