import Propositional.FormulaFile

/-!
# Formula files, line by line

A line end may be written in three ways, and a carriage return in front of a line feed does not count for
itself.  For the formulas this makes no difference: an empty line between the two would hold none.  So the
formulas of a text can be read at each line feed and each carriage return alike.

* `Text.strip_append` — blanks around a text that neither begins nor ends with one are cut off;
* `formulasOfLines`, `formulasFrom_cons` — the formulas of lines, read character by character;
* `formulasOfText_append_lineEnd` — the formulas of two texts with a line end between them;
* `LaysOut` — a text holds formulas one a line, with blanks, comments and lines without formula added;
* `formulasOfText_of_laysOut` — these are the formulas that are read.
-/

namespace Propositional

/-! ### Texts without blanks at the ends -/

namespace Text

theorem length_strip_le (text : List Char) :
    (strip text).length ≤ (text.dropWhile isBlank).length := by
  rw [strip, dropEndWhile, List.length_reverse]
  have hsuffix := List.dropWhile_suffix (l := (text.dropWhile isBlank).reverse) isBlank
  have hle := hsuffix.length_le
  rwa [List.length_reverse] at hle

/-- What has no blanks to be cut off does not begin with one. -/
theorem dropWhile_of_strip_eq {text : List Char} (h : strip text = text) :
    text.dropWhile isBlank = text := by
  have hle := length_strip_le text
  rw [h] at hle
  exact (List.dropWhile_suffix isBlank).eq_of_length_le hle

/-- Nor does it end with one. -/
theorem dropEndWhile_of_strip_eq {text : List Char} (h : strip text = text) :
    dropEndWhile isBlank text = text := by
  rw [strip, dropWhile_of_strip_eq h] at h
  exact h

theorem dropWhile_append_of_eq {test : Char → Bool} {lead text : List Char}
    (hlead : ∀ c ∈ lead, test c = true) (hne : text ≠ []) (htext : text.dropWhile test = text)
    (later : List Char) :
    (lead ++ (text ++ later)).dropWhile test = text ++ later := by
  rw [List.dropWhile_append_of_pos hlead, List.dropWhile_append, htext,
    if_neg (by simpa using hne)]

/-- Blanks around a text that has none at its ends are cut off. -/
theorem strip_append {lead text trail : List Char} (hlead : ∀ c ∈ lead, isBlank c = true)
    (htrail : ∀ c ∈ trail, isBlank c = true) (hne : text ≠ []) (h : strip text = text) :
    strip (lead ++ (text ++ trail)) = text := by
  have hend : text.reverse.dropWhile isBlank = text.reverse := by
    have hstrip := dropEndWhile_of_strip_eq h
    rw [dropEndWhile] at hstrip
    rw [← List.reverse_inj, hstrip, List.reverse_reverse]
  rw [strip, dropWhile_append_of_eq hlead hne (dropWhile_of_strip_eq h), dropEndWhile,
    List.reverse_append]
  have hcut := dropWhile_append_of_eq (fun c hc => htrail c (List.mem_reverse.1 hc))
    (by simpa using hne) hend []
  rw [List.append_nil] at hcut
  rw [hcut, List.reverse_reverse]

theorem strip_blanks {text : List Char} (h : ∀ c ∈ text, isBlank c = true) : strip text = [] := by
  have hcut : (text ++ []).dropWhile isBlank = [] := List.dropWhile_append_of_pos h
  rw [List.append_nil] at hcut
  rw [strip, hcut]
  rfl

end Text

namespace FormulaFile

/-! ### Lines, character by character -/

/-- Does a character end a line? -/
def isLineEnd (c : Char) : Bool := c = '\n' || c = '\r'

theorem isLineEnd_iff {c : Char} : isLineEnd c = true ↔ c = '\n' ∨ c = '\r' := by
  simp [isLineEnd]

theorem splitLinesFrom_lineFeed (line rest : List Char) :
    splitLinesFrom line ('\n' :: rest) = line.reverse :: splitLinesFrom [] rest := by
  simp [splitLinesFrom]

/-- A carriage return that is not in front of a line feed ends a line. -/
theorem splitLinesFrom_carriageReturn (line : List Char) {rest : List Char}
    (h : rest.head? ≠ some '\n') :
    splitLinesFrom line ('\r' :: rest) = line.reverse :: splitLinesFrom [] rest := by
  rw [splitLinesFrom]
  · rfl
  · exact fun later _ heq => h (by rw [heq]; rfl)

/-- A character that ends no line belongs to the line. -/
theorem splitLinesFrom_of_not_lineEnd (line : List Char) {c : Char} (h : isLineEnd c = false)
    (rest : List Char) : splitLinesFrom line (c :: rest) = splitLinesFrom (c :: line) rest := by
  have hneither : ¬ (c = '\n' ∨ c = '\r') := by rw [← isLineEnd_iff, h]; exact Bool.false_ne_true
  obtain ⟨hfeed, hreturn⟩ := not_or.1 hneither
  rw [splitLinesFrom]
  · simp [hfeed, hreturn]
  · exact fun _ heq => absurd heq hreturn

/-! ### Formulas of lines -/

/-- The formulas of lines. -/
def formulasOfLines (lines : List (List Char)) : List String :=
  ((lines.map formulaOfLine).filter fun formula => !formula.isEmpty).map String.ofList

theorem formulasOfLines_append (lines later : List (List Char)) :
    formulasOfLines (lines ++ later) = formulasOfLines lines ++ formulasOfLines later := by
  simp only [formulasOfLines, List.map_append, List.filter_append]

theorem formulasOfLines_cons (line : List Char) (lines : List (List Char)) :
    formulasOfLines (line :: lines) = formulasOfLines [line] ++ formulasOfLines lines :=
  formulasOfLines_append [line] lines

theorem formulasOfLines_singleton (line : List Char) :
    formulasOfLines [line] =
      if (formulaOfLine line).isEmpty then [] else [String.ofList (formulaOfLine line)] := by
  cases h : (formulaOfLine line).isEmpty <;> simp [formulasOfLines, h]

theorem formulasOfLines_empty : formulasOfLines [[]] = [] := rfl

/-- The formulas of a text whose first line goes on from `line`, read backwards. -/
def formulasFrom (line text : List Char) : List String := formulasOfLines (splitLinesFrom line text)

theorem formulasFrom_nil (line : List Char) :
    formulasFrom line [] = formulasOfLines [line.reverse] := rfl

theorem formulasFrom_lineFeed (line rest : List Char) :
    formulasFrom line ('\n' :: rest) = formulasOfLines [line.reverse] ++ formulasFrom [] rest := by
  rw [formulasFrom, splitLinesFrom_lineFeed, formulasOfLines_cons]
  rfl

/-- Behind a carriage return a line feed may be passed over: it would end an empty line. -/
theorem formulasFrom_carriageReturn (line rest : List Char) :
    formulasFrom line ('\r' :: rest) = formulasOfLines [line.reverse] ++ formulasFrom [] rest := by
  by_cases hrest : rest.head? = some '\n'
  · obtain ⟨later, rfl⟩ : ∃ later, rest = '\n' :: later := List.head?_eq_some_iff.1 hrest
    rw [formulasFrom_lineFeed, List.reverse_nil, formulasOfLines_empty, List.nil_append,
      formulasFrom, splitLinesFrom, formulasOfLines_cons]
    rfl
  · rw [formulasFrom, splitLinesFrom_carriageReturn line hrest, formulasOfLines_cons]
    rfl

/-- The formulas of a text, read character by character. -/
theorem formulasFrom_cons (line : List Char) (c : Char) (rest : List Char) :
    formulasFrom line (c :: rest) =
      if isLineEnd c then formulasOfLines [line.reverse] ++ formulasFrom [] rest
      else formulasFrom (c :: line) rest := by
  by_cases hc : isLineEnd c = true
  · rw [if_pos hc]
    rcases isLineEnd_iff.1 hc with rfl | rfl
    · exact formulasFrom_lineFeed line rest
    · exact formulasFrom_carriageReturn line rest
  · rw [if_neg hc, formulasFrom, splitLinesFrom_of_not_lineEnd line (Bool.eq_false_iff.2 hc) rest]
    rfl

/-- Reading goes on behind a line end as at the beginning of a text. -/
theorem formulasFrom_append_lineEnd {c : Char} (hc : isLineEnd c = true) (text later : List Char)
    (line : List Char) :
    formulasFrom line (text ++ c :: later) = formulasFrom line text ++ formulasFrom [] later := by
  induction text generalizing line with
  | nil => rw [List.nil_append, formulasFrom_cons, if_pos hc, formulasFrom_nil]
  | cons d text ih =>
    rw [List.cons_append, formulasFrom_cons, formulasFrom_cons]
    by_cases hd : isLineEnd d = true
    · rw [if_pos hd, if_pos hd, ih, List.append_assoc]
    · rw [if_neg hd, if_neg hd, ih]

/-- The ways to end a line. -/
def lineEnds : List (List Char) := [['\n'], ['\r', '\n'], ['\r']]

/-- The formulas of two texts with a line end between them are those of the one and of the other. -/
theorem formulasOfText_append_lineEnd {ending : List Char} (h : ending ∈ lineEnds)
    (text later : List Char) :
    formulasOfText (text ++ (ending ++ later)) = formulasOfText text ++ formulasOfText later := by
  show formulasFrom [] _ = formulasFrom [] text ++ formulasFrom [] later
  simp only [lineEnds, List.mem_cons, List.not_mem_nil, or_false] at h
  rcases h with rfl | rfl | rfl
  · exact formulasFrom_append_lineEnd rfl text later []
  · rw [List.cons_append, formulasFrom_append_lineEnd rfl, List.singleton_append,
      formulasFrom_lineFeed, List.reverse_nil, formulasOfLines_empty, List.nil_append]
  · exact formulasFrom_append_lineEnd rfl text later []

/-- A text without line ends is one line. -/
theorem formulasOfText_line {text : List Char} (h : ∀ c ∈ text, isLineEnd c = false) :
    formulasOfText text = formulasOfLines [text] := by
  suffices hfrom : ∀ line, formulasFrom line text = formulasOfLines [line.reverse ++ text] from
    hfrom []
  induction text with
  | nil =>
    intro line
    rw [List.append_nil, formulasFrom_nil]
  | cons c text ih =>
    intro line
    have hc : isLineEnd c = false := h c List.mem_cons_self
    rw [formulasFrom_cons, if_neg (by rw [hc]; exact Bool.false_ne_true),
      ih (fun d hd => h d (List.mem_cons_of_mem c hd)), List.reverse_cons, List.append_assoc]
    rfl

/-! ### How a file may be laid out -/

/-- A formula that can stand on a line: it is not empty, has no blanks at its ends, and holds neither a
line end nor the sign that begins a comment. -/
structure IsEntry (formula : String) : Prop where
  ne_empty : formula ≠ ""
  stripped : Text.strip formula.toList = formula.toList
  no_comment : '#' ∉ formula.toList
  no_lineFeed : '\n' ∉ formula.toList
  no_carriageReturn : '\r' ∉ formula.toList

instance (formula : String) : Decidable (IsEntry formula) :=
  decidable_of_iff (formula ≠ "" ∧ Text.strip formula.toList = formula.toList ∧
      '#' ∉ formula.toList ∧ '\n' ∉ formula.toList ∧ '\r' ∉ formula.toList)
    ⟨fun ⟨h₁, h₂, h₃, h₄, h₅⟩ => ⟨h₁, h₂, h₃, h₄, h₅⟩, fun ⟨h₁, h₂, h₃, h₄, h₅⟩ => ⟨h₁, h₂, h₃, h₄, h₅⟩⟩

/-- Blanks that end no line. -/
def IsPadding (text : List Char) : Prop :=
  ∀ c ∈ text, Text.isBlank c = true ∧ isLineEnd c = false

instance (text : List Char) : Decidable (IsPadding text) :=
  List.decidableBAll (fun c => Text.isBlank c = true ∧ isLineEnd c = false) text

/-- A comment up to the end of its line, or none. -/
inductive IsNote : List Char → Prop
  | none : IsNote []
  | comment {text : List Char} (h : ∀ c ∈ text, isLineEnd c = false) : IsNote ('#' :: text)

theorem isNote_cons_iff {c : Char} {text : List Char} :
    IsNote (c :: text) ↔ c = '#' ∧ text.all (fun d => !isLineEnd d) = true := by
  rw [List.all_eq_true]
  constructor
  · rintro (_ | h)
    exact ⟨rfl, fun d hd => by rw [h d hd]; rfl⟩
  · rintro ⟨rfl, h⟩
    exact .comment fun d hd => by simpa using h d hd

instance : (note : List Char) → Decidable (IsNote note)
  | [] => isTrue .none
  | _ :: _ => decidable_of_iff _ isNote_cons_iff.symm

/-- What a line holds: one formula or none, with blanks around it and a comment behind. -/
inductive Holds : List String → List Char → Prop
  | formula {formula : String} {lead trail note : List Char} (hlead : IsPadding lead)
      (htrail : IsPadding trail) (hnote : IsNote note) :
      Holds [formula] (lead ++ (formula.toList ++ trail) ++ note)
  | nothing {padding note : List Char} (hpadding : IsPadding padding) (hnote : IsNote note) :
      Holds [] (padding ++ note)

/-- A text holds formulas one a line; each line but the last has a line end. -/
inductive LaysOut : List String → List Char → Prop
  | last {formulas : List String} {line : List Char} (hline : Holds formulas line) :
      LaysOut formulas line
  | more {formulas later : List String} {line ending text : List Char}
      (hline : Holds formulas line) (hending : ending ∈ lineEnds) (htext : LaysOut later text) :
      LaysOut (formulas ++ later) (line ++ (ending ++ text))

theorem IsPadding.isBlank {text : List Char} (h : IsPadding text) :
    ∀ c ∈ text, Text.isBlank c = true := fun c hc => (h c hc).1

theorem IsPadding.no_comment {text : List Char} (h : IsPadding text) : '#' ∉ text := by
  intro hmem
  exact absurd (h '#' hmem).1 (by decide)

theorem IsNote.isLineEnd {note : List Char} (h : IsNote note) :
    ∀ c ∈ note, isLineEnd c = false := by
  cases h with
  | none => exact fun c hc => absurd hc List.not_mem_nil
  | comment htext =>
    intro c hc
    rcases List.mem_cons.1 hc with rfl | hc
    · rfl
    · exact htext c hc

/-- Only what stands in front of a comment counts. -/
theorem formulaOfLine_note {text note : List Char} (htext : '#' ∉ text) (hnote : IsNote note) :
    formulaOfLine (text ++ note) = Text.strip text := by
  have hkept : ∀ c ∈ text, (c != '#') = true := by
    intro c hc
    rw [bne_iff_ne]
    rintro rfl
    exact htext hc
  have hcut : note.takeWhile (fun c => c != '#') = [] := by
    cases hnote <;> rfl
  rw [formulaOfLine, List.takeWhile_append_of_pos hkept, hcut, List.append_nil]

theorem IsEntry.isLineEnd {formula : String} (h : IsEntry formula) :
    ∀ c ∈ formula.toList, isLineEnd c = false := by
  intro c hc
  have hfeed : c ≠ '\n' := fun heq => h.no_lineFeed (heq ▸ hc)
  have hreturn : c ≠ '\r' := fun heq => h.no_carriageReturn (heq ▸ hc)
  simp [FormulaFile.isLineEnd, hfeed, hreturn]

/-- The formula of a line is the one that it holds. -/
theorem formulasOfText_of_holds {formulas : List String} {line : List Char}
    (h : Holds formulas line) (hentries : ∀ formula ∈ formulas, IsEntry formula) :
    formulasOfText line = formulas := by
  cases h with
  | @formula formula lead trail note hlead htrail hnote =>
    have hentry : IsEntry formula := hentries formula List.mem_cons_self
    have hne : formula.toList ≠ [] := by
      intro hnil
      exact hentry.ne_empty (String.toList_eq_nil_iff.1 hnil)
    have hline : ∀ c ∈ lead ++ (formula.toList ++ trail) ++ note, isLineEnd c = false := by
      intro c hc
      simp only [List.mem_append] at hc
      rcases hc with (hc | hc | hc) | hc
      · exact (hlead c hc).2
      · exact hentry.isLineEnd c hc
      · exact (htrail c hc).2
      · exact hnote.isLineEnd c hc
    have hcomment : '#' ∉ lead ++ (formula.toList ++ trail) := by
      simp only [List.mem_append, not_or]
      exact ⟨hlead.no_comment, hentry.no_comment, htrail.no_comment⟩
    have hread : formulaOfLine (lead ++ (formula.toList ++ trail) ++ note) = formula.toList := by
      rw [formulaOfLine_note hcomment hnote]
      exact Text.strip_append hlead.isBlank htrail.isBlank hne hentry.stripped
    rw [formulasOfText_line hline, formulasOfLines_singleton, hread, if_neg (by simpa using hne),
      String.ofList_toList]
  | @nothing padding note hpadding hnote =>
    have hline : ∀ c ∈ padding ++ note, isLineEnd c = false := by
      intro c hc
      rcases List.mem_append.1 hc with hc | hc
      · exact (hpadding c hc).2
      · exact hnote.isLineEnd c hc
    have hread : formulaOfLine (padding ++ note) = [] := by
      rw [formulaOfLine_note hpadding.no_comment hnote, Text.strip_blanks hpadding.isBlank]
    rw [formulasOfText_line hline, formulasOfLines_singleton, hread]
    rfl

/-- **Formula files**: the formulas that are read are those that the text holds. -/
theorem formulasOfText_of_laysOut {formulas : List String} {text : List Char}
    (h : LaysOut formulas text) (hentries : ∀ formula ∈ formulas, IsEntry formula) :
    formulasOfText text = formulas := by
  induction h with
  | last hline => exact formulasOfText_of_holds hline hentries
  | more hline hending _ ih =>
    rw [formulasOfText_append_lineEnd hending,
      formulasOfText_of_holds hline fun formula hmem => hentries formula (List.mem_append_left _ hmem),
      ih fun formula hmem => hentries formula (List.mem_append_right _ hmem)]

/-- The formulas of a file that is the UTF-8 form of a text are those of the text. -/
theorem formulasOfBytes_toUTF8 (text : String) :
    formulasOfBytes text.toUTF8 = some (formulasOfText text.toList) := by
  have hvalid : text.toUTF8.IsValidUTF8 := text.isValidUTF8
  have htext : String.fromUTF8? text.toUTF8 = some text := by
    rw [String.fromUTF8?, dif_pos hvalid]
    rfl
  rw [formulasOfBytes, htext]
  rfl

end FormulaFile

end Propositional
