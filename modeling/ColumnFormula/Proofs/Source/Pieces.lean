import ColumnFormula.Proofs.Source.Separation
import Mathlib.Data.List.DropRight

/-!
# The pieces of a script

What the splitter makes of any script, also of one with unterminated quotes or brackets. A script
meets no separator, or its first piece is closed and a separator stands behind it, and this is the
induction that statements about all scripts go by (`scriptInduction`). The pieces cover the script
up to blanks and semicolons (`PiecesIn`). Trimming changes no zone: blanks open and close nothing,
so every piece but the last ends outside of quotes and brackets also without the blanks at its ends
(`Zone.Closes.trim`). Therefore the pieces can be joined by any separator and are found again
(`splitStatements_stable`).
-/

set_option autoImplicit false
set_option relaxedAutoImplicit false

namespace ColumnFormula

/-! ### Trimming -/

theorem boundary_dropWhile (p : Char → Bool) (cs : List Char) : Boundary p (cs.dropWhile p) := by
  intro c hc
  have hhead := List.head?_dropWhile_not p cs
  rw [Option.mem_def] at hc
  rwa [hc] at hhead

/-- Trimming leaves no blank at either end. -/
theorem boundary_trim (cs : List Char) :
    Boundary isBlank (trim cs) ∧ Boundary isBlank (trim cs).reverse := by
  constructor
  · obtain ⟨back, hback⟩ : trim cs <+: cs.dropWhile isBlank := List.rdropWhile_prefix isBlank _
    intro c hc
    refine boundary_dropWhile isBlank cs c ?_
    rw [← hback]
    exact List.mem_head?_append_of_mem_head? hc
  · rw [trim, List.reverse_reverse]
    exact boundary_dropWhile isBlank _

@[simp] theorem trim_trim (cs : List Char) : trim (trim cs) = trim cs := by
  obtain ⟨front, back, hcs, hfront, hback⟩ := exists_append_trim cs
  have hwhole := congrArg trim hcs
  rwa [trim_blank_append hfront, trim_append_blank hback, eq_comm] at hwhole

/-! ### Zones behind blanks -/

namespace Zone

/-- The zone is one that a script gets into: quotes are single or double. -/
def WellQuoted : Zone → Prop
  | .quoted quote => quote = '\'' ∨ quote = '"'
  | _ => True

theorem WellQuoted.step {zone : Zone} (h : zone.WellQuoted) (c : Char) :
    (zone.step c).WellQuoted := by
  cases zone with
  | quoted quote =>
    rw [Zone.step]
    split
    · trivial
    · exact h
  | bracketed =>
    rw [Zone.step]
    split <;> trivial
  | plain =>
    rw [Zone.step]
    split
    · assumption
    · split <;> trivial

/-- No blank closes quotes or brackets. -/
theorem WellQuoted.eq_plain_of_step {zone : Zone} (h : zone.WellQuoted) {c : Char}
    (hc : isBlank c = true) (hstep : zone.step c = .plain) : zone = .plain := by
  have hclosing : ∀ d ∈ ['\'', '"', ']'], (!isBlank d) = true := List.all_eq_true.mp (by decide)
  have hnot : c ∉ ['\'', '"', ']'] := fun hmem ↦ absurd (hclosing c hmem) (by simp [hc])
  simp only [List.mem_cons, List.not_mem_nil, or_false, not_or] at hnot
  obtain ⟨hsingle, hdouble, hbracket⟩ := hnot
  cases zone with
  | plain => rfl
  | bracketed => simp [Zone.step, hbracket] at hstep
  | quoted quote => rcases h with rfl | rfl <;> simp [Zone.step, hsingle, hdouble] at hstep

theorem WellQuoted.eq_plain_of_closes {zone : Zone} (h : zone.WellQuoted) {gap : List Char}
    (hgap : Blank gap) (hcloses : zone.Closes gap) : zone = .plain := by
  induction gap generalizing zone with
  | nil => exact hcloses
  | cons c rest ih =>
    have hrest := ih (h.step c) (fun d hd ↦ hgap d (List.mem_cons_of_mem c hd)) hcloses.2
    exact h.eq_plain_of_step (hgap c List.mem_cons_self) hrest

theorem Closes.of_append_blank {zone : Zone} {cs back : List Char}
    (hcloses : zone.Closes (cs ++ back)) (h : zone.WellQuoted) (hback : Blank back) :
    zone.Closes cs := by
  induction cs generalizing zone with
  | nil => exact h.eq_plain_of_closes hback hcloses
  | cons c rest ih => exact ⟨hcloses.1, ih hcloses.2 (h.step c)⟩

/-- Blanks outside of quotes and brackets leave the zone as it is, so what holds behind every
character of a text holds behind them. -/
theorem of_blank_append {property : Zone → List Char → Prop}
    (htail : ∀ {zone : Zone} {c : Char} {cs : List Char},
      property zone (c :: cs) → property (zone.step c) cs)
    {front cs : List Char} (hfront : Blank front) (h : property .plain (front ++ cs)) :
    property .plain cs := by
  induction front with
  | nil => exact h
  | cons c front ih =>
    have hrest := htail h
    rw [step_of_isBlank (hfront c List.mem_cons_self)] at hrest
    exact ih (fun d hd ↦ hfront d (List.mem_cons_of_mem c hd)) hrest

theorem Closes.of_blank_append {front cs : List Char} (hfront : Blank front)
    (h : Zone.plain.Closes (front ++ cs)) : Zone.plain.Closes cs :=
  Zone.of_blank_append (fun htail ↦ htail.2) hfront h

/-- What is closed is closed without the blanks at its ends. -/
theorem Closes.trim {cs : List Char} (h : Zone.plain.Closes cs) :
    Zone.plain.Closes (trim cs) := by
  obtain ⟨front, back, hcs, hfront, hback⟩ := exists_append_trim cs
  have hplain : Zone.plain.WellQuoted := trivial
  rw [hcs] at h
  exact (Closes.of_blank_append hfront h).of_append_blank hplain hback

theorem Keeps.of_append {zone : Zone} {cs back : List Char} (h : zone.Keeps (cs ++ back)) :
    zone.Keeps cs := by
  induction cs generalizing zone with
  | nil => trivial
  | cons c rest ih => exact ⟨h.1, ih h.2⟩

theorem Keeps.of_blank_append {front cs : List Char} (hfront : Blank front)
    (h : Zone.plain.Keeps (front ++ cs)) : Zone.plain.Keeps cs :=
  Zone.of_blank_append (fun htail ↦ htail.2) hfront h

theorem Keeps.trim {cs : List Char} (h : Zone.plain.Keeps cs) : Zone.plain.Keeps (trim cs) := by
  obtain ⟨front, back, hcs, hfront, -⟩ := exists_append_trim cs
  rw [hcs] at h
  exact (Keeps.of_blank_append hfront h).of_append

end Zone

/-! ### Scripts piece by piece -/

theorem keeps_or_exists_closes (zone : Zone) (cs : List Char) :
    zone.Keeps cs ∨ ∃ piece separator rest, cs = piece ++ separator :: rest ∧
      zone.Closes piece ∧ Zone.plain.separates separator = true := by
  induction cs generalizing zone with
  | nil => exact .inl trivial
  | cons c rest ih =>
    cases hc : zone.separates c with
    | true =>
      obtain rfl : zone = .plain := by
        simp only [Zone.separates, Bool.and_eq_true, beq_iff_eq] at hc
        exact hc.1
      exact .inr ⟨[], c, rest, rfl, rfl, hc⟩
    | false =>
      obtain hkeeps | ⟨piece, separator, behind, rfl, hcloses, hseparator⟩ := ih (zone.step c)
      · exact .inl ⟨hc, hkeeps⟩
      · exact .inr ⟨c :: piece, separator, behind, rfl, ⟨hc, hcloses⟩, hseparator⟩

/-- Induction along the pieces of a script: it meets no separator, or it begins with a closed piece
and a separator and goes on. -/
theorem scriptInduction {motive : List Char → Prop}
    (last : ∀ cs, Zone.plain.Keeps cs → motive cs)
    (piece : ∀ cs separator rest, Zone.plain.Closes cs →
      Zone.plain.separates separator = true → motive rest → motive (cs ++ separator :: rest))
    (cs : List Char) : motive cs := by
  induction hlength : cs.length using Nat.strong_induction_on generalizing cs with
  | h n ih =>
    subst hlength
    obtain hkeeps | ⟨first, separator, rest, rfl, hcloses, hseparator⟩ :=
      keeps_or_exists_closes .plain cs
    · exact last cs hkeeps
    · have hlt : rest.length < (first ++ separator :: rest).length := by
        simp only [List.length_append, List.length_cons]
        omega
      exact piece first separator rest hcloses hseparator (ih _ hlt rest rfl)

theorem eq_or_eq_of_separates {c : Char} (h : Zone.plain.separates c = true) :
    c = ';' ∨ c = '\n' := by
  simpa [Zone.separates] using h

theorem isBlank_or_semicolon {c : Char} (h : c = ';' ∨ c = '\n') :
    isBlank c = true ∨ c = ';' := by
  rcases h with rfl | rfl
  · exact .inr rfl
  · exact .inl (by decide)

/-- A closed text in front of a separator gives its own pieces. -/
theorem statementPieces_append_separator {cs : List Char} {separator : Char}
    (hcs : Zone.plain.Closes cs) (hseparator : separator = ';' ∨ separator = '\n')
    (rest : List Char) :
    statementPieces (cs ++ separator :: rest) = statementPieces cs ++ statementPieces rest := by
  have hlayout : ∀ c ∈ [separator], isBlank c = true ∨ c = ';' :=
    List.forall_mem_singleton.mpr (isBlank_or_semicolon hseparator)
  exact statementPieces_append hcs hlayout
    ⟨separator, List.mem_singleton_self separator, hseparator⟩ rest

theorem statementPieces_cases {cs : List Char} (h : Zone.plain.Keeps cs) :
    Blank cs ∧ statementPieces cs = [] ∨ trim cs ≠ [] ∧ statementPieces cs = [trim cs] := by
  rw [statementPieces_of_keeps h, ← trim_eq_nil_iff]
  by_cases hblank : trim cs = []
  · exact .inl ⟨hblank, by simp [hblank]⟩
  · exact .inr ⟨hblank, by simp [hblank]⟩

/-! ### What the pieces are -/

/-- The pieces stand in the text, in order and apart from one another, and all characters outside
of them are blanks and semicolons. -/
inductive PiecesIn : List Char → List (List Char) → Prop
  | finish {filler : List Char} (hfiller : ∀ c ∈ filler, isBlank c = true ∨ c = ';') :
      PiecesIn filler []
  | piece {filler piece rest : List Char} {pieces : List (List Char)}
      (hfiller : ∀ c ∈ filler, isBlank c = true ∨ c = ';') (hrest : PiecesIn rest pieces) :
      PiecesIn (filler ++ (piece ++ rest)) (piece :: pieces)

theorem PiecesIn.filler_append {filler rest : List Char} {pieces : List (List Char)}
    (hfiller : ∀ c ∈ filler, isBlank c = true ∨ c = ';') (h : PiecesIn rest pieces) :
    PiecesIn (filler ++ rest) pieces := by
  have happend {other : List Char} (hother : ∀ c ∈ other, isBlank c = true ∨ c = ';') :
      ∀ c ∈ filler ++ other, isBlank c = true ∨ c = ';' :=
    fun c hc ↦ (List.mem_append.mp hc).elim (hfiller c) (hother c)
  cases h with
  | finish hrest => exact .finish (happend hrest)
  | piece hother hrest =>
    rw [← List.append_assoc]
    exact .piece (happend hother) hrest

/-- A text without separators in front of a script adds its trimmed text as a piece, or nothing. -/
theorem PiecesIn.append_keeps {cs rest : List Char} {pieces : List (List Char)}
    (hcs : Zone.plain.Keeps cs) (h : PiecesIn rest pieces) :
    PiecesIn (cs ++ rest) (statementPieces cs ++ pieces) := by
  obtain ⟨hblank, hpieces⟩ | ⟨-, hpieces⟩ := statementPieces_cases hcs
  · rw [hpieces]
    exact h.filler_append fun c hc ↦ .inl (hblank c hc)
  · obtain ⟨front, back, heq, hfront, hback⟩ := exists_append_trim cs
    have hrest : PiecesIn (back ++ rest) pieces :=
      h.filler_append fun c hc ↦ .inl (hback c hc)
    have hwhole : PiecesIn (front ++ (trim cs ++ (back ++ rest))) (trim cs :: pieces) :=
      .piece (fun c hc ↦ .inl (hfront c hc)) hrest
    rw [hpieces, List.singleton_append]
    simpa only [← List.append_assoc, ← heq] using hwhole

theorem piecesIn_statementPieces (cs : List Char) : PiecesIn cs (statementPieces cs) := by
  induction cs using scriptInduction with
  | last cs hkeeps =>
    have hnone : PiecesIn [] [] := .finish (List.forall_mem_nil _)
    simpa using hnone.append_keeps hkeeps
  | piece cs separator rest hcloses hseparator ih =>
    have hsplit := eq_or_eq_of_separates hseparator
    have hfiller : ∀ c ∈ [separator], isBlank c = true ∨ c = ';' :=
      List.forall_mem_singleton.mpr (isBlank_or_semicolon hsplit)
    rw [statementPieces_append_separator hcloses hsplit]
    exact (ih.filler_append hfiller).append_keeps hcloses.keeps

/-- Texts that stay apart when they are joined: each of them is closed, but the last one need only
meet no separator. -/
inductive StayApart : List (List Char) → Prop
  | nil : StayApart []
  | last {piece : List Char} (hkeeps : Zone.plain.Keeps piece) : StayApart [piece]
  | cons {piece : List Char} {pieces : List (List Char)} (hcloses : Zone.plain.Closes piece)
      (hrest : StayApart pieces) : StayApart (piece :: pieces)

theorem stayApart_statementPieces (cs : List Char) : StayApart (statementPieces cs) := by
  induction cs using scriptInduction with
  | last cs hkeeps =>
    obtain ⟨-, hpieces⟩ | ⟨-, hpieces⟩ := statementPieces_cases hkeeps
    · rw [hpieces]
      exact .nil
    · rw [hpieces]
      exact .last hkeeps.trim
  | piece cs separator rest hcloses hseparator ih =>
    rw [statementPieces_append_separator hcloses (eq_or_eq_of_separates hseparator)]
    obtain ⟨-, hpieces⟩ | ⟨-, hpieces⟩ := statementPieces_cases hcloses.keeps
    · rw [hpieces]
      exact ih
    · rw [hpieces]
      exact .cons hcloses.trim ih

/-- A piece is trimmed and not empty. -/
theorem trim_eq_of_mem_statementPieces {cs piece : List Char} (h : piece ∈ statementPieces cs) :
    piece ≠ [] ∧ trim piece = piece := by
  obtain ⟨hmem, hne⟩ := List.mem_filter.mp h
  obtain ⟨raw, -, rfl⟩ := List.mem_map.mp hmem
  exact ⟨by simpa using hne, trim_trim raw⟩

/-- Trimmed texts that stay apart are the pieces of the script that they are joined to. -/
theorem StayApart.statementPieces_intercalate {pieces : List (List Char)} (h : StayApart pieces)
    (htrim : ∀ piece ∈ pieces, piece ≠ [] ∧ trim piece = piece) {separator : Char}
    (hseparator : separator = ';' ∨ separator = '\n') :
    statementPieces ([separator].intercalate pieces) = pieces := by
  have hsingle {piece : List Char} (hkeeps : Zone.plain.Keeps piece)
      (hpiece : piece ≠ [] ∧ trim piece = piece) : statementPieces piece = [piece] := by
    rw [statementPieces_of_keeps hkeeps, hpiece.2]
    simp [hpiece.1]
  induction h with
  | nil => rfl
  | last hkeeps =>
    rw [List.intercalate_singleton]
    exact hsingle hkeeps (htrim _ List.mem_cons_self)
  | @cons piece pieces hcloses _ ih =>
    have hpiece := hsingle hcloses.keeps (htrim _ List.mem_cons_self)
    have hpieces := ih fun other hother ↦ htrim other (List.mem_cons_of_mem piece hother)
    cases pieces with
    | nil => rw [List.intercalate_singleton, hpiece]
    | cons next pieces =>
      rw [List.intercalate_cons_cons, List.append_assoc, List.singleton_append,
        statementPieces_append_separator hcloses hseparator, hpiece, hpieces]
      rfl

/-! ### Splitting is stable -/

theorem map_toList_splitStatements (script : String) :
    (splitStatements script).map String.toList = statementPieces script.toList := by
  have hsplit : splitStatements script = (statementPieces script.toList).map String.ofList := rfl
  rw [hsplit, List.map_map]
  simp [Function.comp_def]

/-- The pieces of a script are the pieces of the script that they are joined to. -/
theorem splitStatements_intercalate {joint : String} {separator : Char}
    (hjoint : joint.toList = [separator]) (hseparator : separator = ';' ∨ separator = '\n')
    (script : String) :
    splitStatements (joint.intercalate (splitStatements script)) = splitStatements script := by
  have hpieces := (stayApart_statementPieces script.toList).statementPieces_intercalate
    (fun piece ↦ trim_eq_of_mem_statementPieces) hseparator
  have hjoined : (joint.intercalate (splitStatements script)).toList =
      [separator].intercalate (statementPieces script.toList) := by
    rw [String.toList_intercalate, map_toList_splitStatements, hjoint]
  rw [← String.ofList_toList (s := joint.intercalate _), hjoined, splitStatements_eq, hpieces]
  rfl

/-- The pieces of any script are not empty and have no blank at either end, they cover the script up
to blanks and semicolons, and joined by semicolons or by newlines they are found again. -/
theorem splitStatements_stable (script : String) :
    (∀ piece ∈ splitStatements script, piece ≠ "" ∧ Boundary isBlank piece.toList ∧
      Boundary isBlank piece.toList.reverse) ∧
    PiecesIn script.toList ((splitStatements script).map String.toList) ∧
    splitStatements (";".intercalate (splitStatements script)) = splitStatements script ∧
    splitStatements ("\n".intercalate (splitStatements script)) = splitStatements script := by
  have hsemicolon : ";".toList = [';'] := rfl
  have hnewline : "\n".toList = ['\n'] := rfl
  refine ⟨fun piece hpiece ↦ ?_, ?_, splitStatements_intercalate hsemicolon (.inl rfl) script,
    splitStatements_intercalate hnewline (.inr rfl) script⟩
  · have hmem : piece.toList ∈ statementPieces script.toList := by
      rw [← map_toList_splitStatements]
      exact List.mem_map_of_mem hpiece
    obtain ⟨hne, heq⟩ := trim_eq_of_mem_statementPieces hmem
    have hends := boundary_trim piece.toList
    rw [heq] at hends
    exact ⟨fun hempty ↦ hne (by rw [hempty]; rfl), hends⟩
  · rw [map_toList_splitStatements]
    exact piecesIn_statementPieces script.toList

example : splitStatements " A = 'x;y'\r\n;;[b; \"c\n" = ["A = 'x;y'", "[b; \"c"] := by
  decide +kernel

end ColumnFormula
