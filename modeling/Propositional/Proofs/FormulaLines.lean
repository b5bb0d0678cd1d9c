import Propositional.Proofs.FormulaFile
import Propositional.Proofs.CommandLine.Response
import Mathlib.Data.List.DropRight
import Mathlib.Data.List.Forall2

/-!
# The formulas of a file are those of its lines

A line is ended by a line feed, by a carriage return, or by both in this order; the last line may go without an
end.  Of a line counts what stands in front of the first `#`, without the blanks at its two ends.

* `Text.IsTrimmed`, `Text.strip_eq_self`, `Text.exists_strip` — texts without blanks at their ends, and what is
  cut off from the others;
* `HasLines` — the lines of a text; `exists_hasLines`, `HasLines.unique` — it has lines in one way;
* `HasText` — what counts of a line; `hasText_formulaOfLine`, `HasText.formulaOfLine_eq` — it is what is read;
* `OnePerLine` — formulas written one per line; `laysOut_of_onePerLine` — such a text holds these formulas;
* `formulas_line_by_line` — the formulas of files.
-/

namespace Propositional

/-! ### Texts without blanks at their ends -/

namespace Text

/-- A text neither begins nor ends with a blank. -/
structure IsTrimmed (text : List Char) : Prop where
  head : ∀ c ∈ text.head?, isBlank c = false
  last : ∀ c ∈ text.getLast?, isBlank c = false

theorem isTrimmed_iff {text : List Char} : IsTrimmed text ↔
    text.head?.all (fun c => !isBlank c) = true ∧ text.getLast?.all (fun c => !isBlank c) = true := by
  simp only [Option.all_eq_true, Bool.not_eq_true']
  exact ⟨fun ⟨hhead, hlast⟩ => ⟨hhead, hlast⟩, fun ⟨hhead, hlast⟩ => ⟨hhead, hlast⟩⟩

instance (text : List Char) : Decidable (IsTrimmed text) := decidable_of_iff _ isTrimmed_iff.symm

theorem strip_eq_rdropWhile (text : List Char) :
    strip text = (text.dropWhile isBlank).rdropWhile isBlank := rfl

/-- From a text without blanks at its ends nothing is cut off. -/
theorem strip_eq_self {text : List Char} (h : IsTrimmed text) : strip text = text := by
  have hhead : text.dropWhile isBlank = text := by
    refine List.dropWhile_eq_self_iff.2 fun hpos hblank => ?_
    rw [h.head _ (by rw [List.head?_eq_getElem?, List.getElem?_eq_getElem hpos]; rfl)] at hblank
    exact Bool.false_ne_true hblank
  rw [strip_eq_rdropWhile, hhead, List.rdropWhile_eq_self_iff]
  intro hne hblank
  rw [h.last _ (List.getLast?_eq_getLast_of_ne_nil hne)] at hblank
  exact Bool.false_ne_true hblank

/-- What is left of a text has no blanks at its ends. -/
theorem isTrimmed_strip (text : List Char) : IsTrimmed (strip text) where
  head := by
    intro c hc
    obtain ⟨trail, htrail⟩ := List.rdropWhile_prefix isBlank (text.dropWhile isBlank)
    rw [← strip_eq_rdropWhile] at htrail
    have hfirst : (text.dropWhile isBlank).head? = some c := by
      rw [← htrail, List.head?_append, Option.mem_def.1 hc]
      rfl
    have hcut := List.head?_dropWhile_not isBlank text
    rw [hfirst] at hcut
    exact hcut
  last := by
    intro c hc
    have hne : strip text ≠ [] := by
      intro hnil
      rw [hnil] at hc
      cases hc
    have hcut := List.rdropWhile_last_not isBlank (text.dropWhile isBlank) hne
    rw [Option.mem_def, List.getLast?_eq_getLast_of_ne_nil hne, Option.some.injEq] at hc
    rw [← hc]
    exact Bool.eq_false_iff.2 hcut

/-- What is cut off from a text consists of blanks. -/
theorem exists_strip (text : List Char) :
    ∃ lead trail, (∀ c ∈ lead, isBlank c = true) ∧ (∀ c ∈ trail, isBlank c = true) ∧
      text = lead ++ (strip text ++ trail) := by
  refine ⟨text.takeWhile isBlank, (text.dropWhile isBlank).rtakeWhile isBlank,
    fun c hc => List.mem_takeWhile_imp hc, fun c hc => List.mem_rtakeWhile_imp hc, ?_⟩
  rw [strip_eq_rdropWhile, List.rdropWhile_append_rtakeWhile, List.takeWhile_append_dropWhile]

end Text

namespace FormulaFile

/-! ### The lines of a text -/

/-- A line holds no line ends. -/
def IsLine (line : List Char) : Prop := ∀ c ∈ line, isLineEnd c = false

instance (line : List Char) : Decidable (IsLine line) :=
  List.decidableBAll (fun c => isLineEnd c = false) line

theorem isLine_nil : IsLine [] := fun _ hc => absurd hc List.not_mem_nil

/-- A text has certain lines.  Where a line feed stands behind a carriage return, the two end one line; behind
the last line end there is no line unless there is text. -/
inductive HasLines : List (List Char) → List Char → Prop
  | nil : HasLines [] []
  | last {line : List Char} (hne : line ≠ []) (hline : IsLine line) :
      HasLines [line] line
  | more {line ending text : List Char} {lines : List (List Char)}
      (hline : IsLine line) (hending : ending ∈ lineEnds)
      (hseam : ending = ['\r'] → text.head? ≠ some '\n') (htext : HasLines lines text) :
      HasLines (line :: lines) (line ++ (ending ++ text))

theorem HasLines.isLine {lines : List (List Char)} {text : List Char} (h : HasLines lines text) :
    ∀ line ∈ lines, IsLine line := by
  induction h with
  | nil => exact fun line hline => absurd hline List.not_mem_nil
  | last _ hline =>
    intro line hmem
    rw [List.mem_singleton.1 hmem]
    exact hline
  | more hline _ _ _ ih =>
    intro line hmem
    rcases List.mem_cons.1 hmem with rfl | hmem
    · exact hline
    · exact ih line hmem

/-- The characters up to a line end belong to the line. -/
theorem splitLinesFrom_line (before : List Char) {line : List Char}
    (h : IsLine line) (rest : List Char) :
    splitLinesFrom before (line ++ rest) = splitLinesFrom (line.reverse ++ before) rest := by
  induction line generalizing before with
  | nil => rfl
  | cons c line ih =>
    rw [List.cons_append, splitLinesFrom_of_not_lineEnd before (h c List.mem_cons_self),
      ih (c :: before) fun d hd => h d (List.mem_cons_of_mem c hd), List.reverse_cons,
      List.append_assoc]
    rfl

/-- Behind a line end a new line begins. -/
theorem splitLinesFrom_ending (before : List Char) {ending rest : List Char} (h : ending ∈ lineEnds)
    (hseam : ending = ['\r'] → rest.head? ≠ some '\n') :
    splitLinesFrom before (ending ++ rest) = before.reverse :: splitLinesFrom [] rest := by
  simp only [lineEnds, List.mem_cons, List.not_mem_nil, or_false] at h
  rcases h with rfl | rfl | rfl
  · exact splitLinesFrom_lineFeed before rest
  · rw [List.cons_append, List.singleton_append, splitLinesFrom]
  · exact splitLinesFrom_carriageReturn before (hseam rfl)

/-- The lines that are split off are those of the text, and behind a last line end one more line, which is
empty. -/
theorem HasLines.splitLines_eq {lines : List (List Char)} {text : List Char} (h : HasLines lines text) :
    splitLines text = lines ++ [[]] ∨
      ∃ before line, line ≠ [] ∧ lines = before ++ [line] ∧ splitLines text = lines := by
  induction h with
  | nil => exact .inl rfl
  | @last line hne hline =>
    refine .inr ⟨[], line, hne, rfl, ?_⟩
    have hsplit := splitLinesFrom_line [] hline []
    rw [List.append_nil, List.append_nil, splitLinesFrom, List.reverse_reverse] at hsplit
    exact hsplit
  | @more line ending text lines hline hending hseam _ ih =>
    have hsplit : splitLines (line ++ (ending ++ text)) = line :: splitLines text := by
      rw [splitLines, splitLinesFrom_line [] hline, splitLinesFrom_ending _ hending hseam,
        List.append_nil, List.reverse_reverse]
      rfl
    rcases ih with ih | ⟨before, final, hne, hlines, ih⟩
    · exact .inl (by rw [hsplit, ih]; rfl)
    · exact .inr ⟨line :: before, final, hne, by rw [hlines]; rfl, by rw [hsplit, ih]⟩

/-- A text has lines in one way only. -/
theorem HasLines.unique {lines others : List (List Char)} {text : List Char}
    (h : HasLines lines text) (hothers : HasLines others text) : others = lines := by
  rcases h.splitLines_eq with hsplit | ⟨before, line, hne, hlines, hsplit⟩ <;>
    rcases hothers.splitLines_eq with hsplit' | ⟨before', line', hne', hothers', hsplit'⟩
  · exact List.append_cancel_right (hsplit'.symm.trans hsplit)
  · rw [hsplit, hothers'] at hsplit'
    exact absurd (List.cons.inj (List.append_inj_right' hsplit' rfl)).1.symm hne'
  · rw [hsplit', hlines] at hsplit
    exact absurd (List.cons.inj (List.append_inj_right' hsplit rfl)).1.symm hne
  · exact hsplit'.symm.trans hsplit

/-- Each text has lines. -/
theorem exists_hasLines (text : List Char) : ∃ lines, HasLines lines text := by
  suffices hfrom : ∀ before : List Char, IsLine before → ∃ lines, HasLines lines (before.reverse ++ text) from
    hfrom [] isLine_nil
  intro before hbefore
  have hline : ∀ line : List Char, IsLine line → IsLine line.reverse :=
    fun line h c hc => h c (List.mem_reverse.1 hc)
  fun_induction splitLinesFrom before text with
  | case1 before =>
    rw [List.append_nil]
    by_cases hne : before.reverse = []
    · exact ⟨[], hne ▸ .nil⟩
    · exact ⟨_, .last hne (hline before hbefore)⟩
  | case2 before rest ih =>
    obtain ⟨lines, hlines⟩ := ih isLine_nil
    exact ⟨_, @HasLines.more _ ['\r', '\n'] _ _ (hline before hbefore) (by decide)
      (fun heq => absurd heq (by decide)) hlines⟩
  | case3 before c rest hseam hc ih =>
    obtain ⟨lines, hlines⟩ := ih isLine_nil
    have hending : [c] ∈ lineEnds := by
      rcases isLineEnd_iff.1 hc with rfl | rfl <;> decide
    refine ⟨_, .more (hline before hbefore) hending (fun heq hfeed => ?_) hlines⟩
    obtain ⟨later, rfl⟩ := List.head?_eq_some_iff.1 hfeed
    exact hseam later (List.cons.inj heq).1 rfl
  | case4 before c rest hseam hc ih =>
    rw [List.reverse_cons, List.append_assoc, List.singleton_append] at ih
    refine ih fun d hd => ?_
    rcases List.mem_cons.1 hd with rfl | hd
    · exact Bool.eq_false_iff.2 hc
    · exact hbefore d hd

/-! ### What counts of a line -/

/-- What counts of a line: what stands in front of a comment, without the blanks at its ends. -/
inductive HasText : List Char → List Char → Prop
  | intro {lead text trail note : List Char} (hlead : IsPadding lead) (htrail : IsPadding trail)
      (hnote : IsNote note) (hcomment : '#' ∉ text) (htrimmed : Text.IsTrimmed text) :
      HasText (lead ++ (text ++ trail) ++ note) text

/-- What counts of a line is what is read. -/
theorem HasText.formulaOfLine_eq {line text : List Char} (h : HasText line text) :
    formulaOfLine line = text := by
  cases h with
  | @intro lead _ trail note hlead htrail hnote hcomment htrimmed =>
    have hfront : '#' ∉ lead ++ (text ++ trail) := by
      simp only [List.mem_append, not_or]
      exact ⟨hlead.no_comment, hcomment, htrail.no_comment⟩
    rw [formulaOfLine_note hfront hnote]
    by_cases hne : text = []
    · subst hne
      refine Text.strip_blanks fun c hc => ?_
      rcases List.mem_append.1 hc with hc | hc
      · exact hlead.isBlank c hc
      · exact htrail.isBlank c hc
    · exact Text.strip_append hlead.isBlank htrail.isBlank hne (Text.strip_eq_self htrimmed)

/-- What begins with the first `#` of a line is a comment. -/
theorem isNote_dropWhile {line : List Char} (h : IsLine line) :
    IsNote (line.dropWhile fun c => c != '#') := by
  have hfirst := List.head?_dropWhile_not (fun c => c != '#') line
  have hrest : IsLine (line.dropWhile fun c => c != '#') :=
    fun c hc => h c ((List.dropWhile_sublist _).subset hc)
  cases hnote : line.dropWhile fun c => c != '#' with
  | nil => exact .none
  | cons c note =>
    rw [hnote] at hfirst hrest
    have hc : c = '#' := by simpa using hfirst
    rw [hc]
    exact .comment fun d hd => hrest d (List.mem_cons_of_mem c hd)

/-- Each line has something that counts, if only the empty text. -/
theorem hasText_formulaOfLine {line : List Char} (h : IsLine line) :
    HasText line (formulaOfLine line) := by
  obtain ⟨lead, trail, hlead, htrail, hfront⟩ := Text.exists_strip (line.takeWhile fun c => c != '#')
  rw [← formulaOfLine] at hfront
  have hsplit : lead ++ (formulaOfLine line ++ trail) ++ (line.dropWhile fun c => c != '#') = line := by
    rw [← hfront, List.takeWhile_append_dropWhile]
  have hmem : ∀ c ∈ lead ++ (formulaOfLine line ++ trail), c ∈ line ∧ c ≠ '#' := by
    intro c hc
    rw [← hfront] at hc
    exact ⟨(List.takeWhile_sublist _).subset hc, by simpa using List.mem_takeWhile_imp hc⟩
  have hcounts : HasText (lead ++ (formulaOfLine line ++ trail) ++ line.dropWhile fun c => c != '#')
      (formulaOfLine line) := by
    refine .intro (fun c hc => ⟨hlead c hc, h c (hmem c ?_).1⟩)
      (fun c hc => ⟨htrail c hc, h c (hmem c ?_).1⟩) (isNote_dropWhile h)
      (fun hc => (hmem '#' ?_).2 rfl) (Text.isTrimmed_strip _)
    · exact List.mem_append_left _ hc
    · exact List.mem_append_right _ (List.mem_append_right _ hc)
    · exact List.mem_append_right _ (List.mem_append_left _ hc)
  rwa [hsplit] at hcounts

/-! ### A text line by line -/

/-- The lines of a text, and what counts of each of them. -/
structure LineByLine (text : List Char) (lines parts : List (List Char)) : Prop where
  split : HasLines lines text
  count : List.Forall₂ HasText lines parts

theorem parts_eq {lines parts : List (List Char)} (h : List.Forall₂ HasText lines parts) :
    parts = lines.map formulaOfLine := by
  induction h with
  | nil => rfl
  | cons hline _ ih => rw [List.map_cons, hline.formulaOfLine_eq, ← ih]

/-- A text can be taken apart in one way. -/
theorem exists_lineByLine (text : List Char) :
    ∃ lines parts, LineByLine text lines parts ∧
      ∀ lines' parts', LineByLine text lines' parts' → lines' = lines ∧ parts' = parts := by
  obtain ⟨lines, hlines⟩ := exists_hasLines text
  refine ⟨lines, lines.map formulaOfLine, ⟨hlines, ?_⟩, fun lines' parts' h => ?_⟩
  · rw [List.forall₂_map_right_iff, List.forall₂_same]
    exact fun line hline => hasText_formulaOfLine (hlines.isLine line hline)
  · obtain rfl := hlines.unique h.split
    exact ⟨rfl, parts_eq h.count⟩

/-- The formulas of a text are those of its lines. -/
theorem HasLines.formulasOfText_eq {lines : List (List Char)} {text : List Char}
    (h : HasLines lines text) : formulasOfText text = formulasOfLines lines := by
  induction h with
  | nil => rfl
  | last _ hline => exact formulasOfText_line hline
  | more hline hending _ _ ih =>
    rw [formulasOfText_append_lineEnd hending, formulasOfText_line hline, ih, ← formulasOfLines_cons]

/-- The formulas of a text are the parts that count, without the empty ones. -/
theorem LineByLine.formulasOfText_eq {text : List Char} {lines parts : List (List Char)}
    (h : LineByLine text lines parts) :
    formulasOfText text = (parts.filter fun part => part ≠ []).map String.ofList := by
  rw [h.split.formulasOfText_eq, parts_eq h.count, formulasOfLines]
  refine congrArg (List.map String.ofList) (List.filter_congr fun part _ => ?_)
  cases part <;> rfl

/-- What counts of a line can stand on a line, unless it is empty. -/
theorem HasText.isEntry {line text : List Char} (h : HasText line text)
    (hline : IsLine line) (hne : text ≠ []) :
    IsEntry (String.ofList text) ∧ Text.IsTrimmed (String.ofList text).toList := by
  cases h with
  | @intro lead _ trail note _ _ _ hcomment htrimmed =>
    have htext : IsLine text := by
      intro c hc
      exact hline c (List.mem_append_left _ (List.mem_append_right _ (List.mem_append_left _ hc)))
    have hlist : (String.ofList text).toList = text := String.toList_ofList
    refine ⟨⟨?_, ?_, ?_, ?_, ?_⟩, by rwa [hlist]⟩
    · rwa [Ne, String.ofList_eq_empty_iff]
    · rw [hlist]
      exact Text.strip_eq_self htrimmed
    · rwa [hlist]
    · rw [hlist]
      exact fun hc => absurd (htext '\n' hc) (by decide)
    · rw [hlist]
      exact fun hc => absurd (htext '\r' hc) (by decide)

/-- Each formula of a text can stand on a line. -/
theorem LineByLine.isEntry {text : List Char} {lines parts : List (List Char)}
    (h : LineByLine text lines parts) {formula : String}
    (hformula : formula ∈ (parts.filter fun part => part ≠ []).map String.ofList) :
    IsEntry formula ∧ Text.IsTrimmed formula.toList := by
  obtain ⟨part, hpart, rfl⟩ := List.mem_map.1 hformula
  obtain ⟨hmem, hne⟩ := List.mem_filter.1 hpart
  rw [parts_eq h.count] at hmem
  obtain ⟨line, hline, rfl⟩ := List.mem_map.1 hmem
  have hends := h.split.isLine line hline
  exact (hasText_formulaOfLine hends).isEntry hends (of_decide_eq_true hne)

/-! ### Formulas one per line -/

/-- A text consists of formulas, one per line and nothing else; the last line may go without an end. -/
inductive OnePerLine : List String → List Char → Prop
  | nil : OnePerLine [] []
  | last (formula : String) : OnePerLine [formula] formula.toList
  | cons (formula : String) {formulas : List String} {ending text : List Char} (hending : ending ∈ lineEnds)
      (htext : OnePerLine formulas text) :
      OnePerLine (formula :: formulas) (formula.toList ++ (ending ++ text))

/-- Formulas may be written with the same end behind each of them. -/
theorem onePerLine_flatMap {ending : List Char} (h : ending ∈ lineEnds) (formulas : List String) :
    OnePerLine formulas (formulas.flatMap fun formula => formula.toList ++ ending) := by
  induction formulas with
  | nil => exact .nil
  | cons formula formulas ih =>
    rw [List.flatMap_cons, List.append_assoc]
    exact .cons formula h ih

theorem isPadding_nil : IsPadding [] := fun _ hc => absurd hc List.not_mem_nil

theorem holds_formula (formula : String) : Holds [formula] formula.toList := by
  have h := @Holds.formula formula [] [] [] isPadding_nil isPadding_nil .none
  rwa [List.append_nil, List.append_nil] at h

/-- A text with one formula per line holds these formulas. -/
theorem laysOut_of_onePerLine {formulas : List String} {text : List Char}
    (h : OnePerLine formulas text) : LaysOut formulas text := by
  induction h with
  | nil => exact .last (.nothing isPadding_nil .none)
  | last formula => exact .last (holds_formula formula)
  | cons formula hending _ ih => exact .more (holds_formula formula) hending ih

/-! ### Files -/

/-- A file with a certain text gives certain formulas, wherever it lies. -/
structure Gives (text : String) (formulas : List String) : Prop where
  bytes : formulasOfBytes text.toUTF8 = some formulas
  file : ∀ (files : CommandLine.Files) (name : String), '\x00' ∉ name.toList →
    files.read name = .ok text.toUTF8 → files.formulas name = .ok formulas

theorem gives_formulasOfText (text : String) : Gives text (formulasOfText text.toList) :=
  ⟨formulasOfBytes_toUTF8 text, fun _ _ hnul hread => CommandLine.formulas_of_read hnul hread⟩

/-- **Formula files are read line by line.**  A file gives, in order, what counts of each line, without the empty
parts; no formula is empty, holds a `#` or a line end, or begins or ends with a blank.  The formulas may be written
back one per line, with the same line end everywhere or with several: they are read again.  The formulas of two
texts with a line end between them are those of the one and of the other. -/
theorem formulas_line_by_line :
    (∀ text : String, ∃ lines parts formulas, LineByLine text.toList lines parts ∧
      (∀ lines' parts', LineByLine text.toList lines' parts' → lines' = lines ∧ parts' = parts) ∧
      formulas = (parts.filter fun part => part ≠ []).map String.ofList ∧ Gives text formulas ∧
      (∀ formula ∈ formulas, formula ≠ "" ∧ '#' ∉ formula.toList ∧ '\n' ∉ formula.toList ∧
        '\r' ∉ formula.toList ∧ Text.IsTrimmed formula.toList) ∧
      (∀ ending ∈ lineEnds,
        Gives (String.ofList (formulas.flatMap fun formula => formula.toList ++ ending)) formulas) ∧
      ∀ written : String, OnePerLine formulas written.toList → Gives written formulas) ∧
    ∀ text later : String, ∀ ending ∈ lineEnds, ∃ formulas laterFormulas,
      Gives text formulas ∧ Gives later laterFormulas ∧
      Gives (text ++ (String.ofList ending ++ later)) (formulas ++ laterFormulas) := by
  constructor
  · intro text
    obtain ⟨lines, parts, hparts, hunique⟩ := exists_lineByLine text.toList
    have hgives := gives_formulasOfText text
    rw [hparts.formulasOfText_eq] at hgives
    have hback : ∀ written : String,
        OnePerLine ((parts.filter fun part => part ≠ []).map String.ofList) written.toList →
        Gives written ((parts.filter fun part => part ≠ []).map String.ofList) := by
      intro written hwritten
      have hread := formulasOfText_of_laysOut (laysOut_of_onePerLine hwritten)
        fun formula hformula => (hparts.isEntry hformula).1
      have hgives := gives_formulasOfText written
      rwa [hread] at hgives
    refine ⟨lines, parts, _, hparts, hunique, rfl, hgives, fun formula hformula => ?_,
      fun ending hending => ?_, hback⟩
    · obtain ⟨hentry, htrimmed⟩ := hparts.isEntry hformula
      exact ⟨hentry.ne_empty, hentry.no_comment, hentry.no_lineFeed, hentry.no_carriageReturn, htrimmed⟩
    · refine hback _ ?_
      rw [String.toList_ofList]
      exact onePerLine_flatMap hending _
  · intro text later ending hending
    refine ⟨_, _, gives_formulasOfText text, gives_formulasOfText later, ?_⟩
    have hgives := gives_formulasOfText (text ++ (String.ofList ending ++ later))
    rwa [String.toList_append, String.toList_append, String.toList_ofList,
      formulasOfText_append_lineEnd hending] at hgives

/-- Line ends of each kind, blank lines, comments with and without a formula in front, and separators that end no
line: one is cut off at the end of a formula, one stays inside. -/
theorem formulas_line_by_line_mixed :
    let text := "\tp & q # first\r\n \r#\n\rr \x85| s\u2028"
    LineByLine text.toList ["\tp & q # first".toList, [' '], ['#'], [], "r \x85| s\u2028".toList]
        ["p & q".toList, [], [], [], "r \x85| s".toList] ∧
      Gives text ["p & q", "r \x85| s"] ∧ OnePerLine ["p & q", "r \x85| s"] "p & q\rr \x85| s".toList ∧
      Gives "p & q\rr \x85| s" ["p & q", "r \x85| s"] ∧ ['\r'] ∈ lineEnds ∧
      ∃ formulas later, Gives text formulas ∧ Gives "\n# r" later ∧
        Gives (text ++ (String.ofList ['\r'] ++ "\n# r")) (formulas ++ later) := by
  intro text
  have hfeed : ['\n'] ∈ lineEnds := by decide
  have hreturn : ['\r'] ∈ lineEnds := by decide
  have hboth : ['\r', '\n'] ∈ lineEnds := by decide
  have hfifth : HasLines _ "r \x85| s\u2028".toList := .last (by decide) (by decide)
  have hfourth := @HasLines.more [] _ _ _ (by decide) hreturn (fun _ => by decide) hfifth
  have hthird := @HasLines.more ['#'] _ _ _ (by decide) hfeed (fun heq => absurd heq (by decide)) hfourth
  have hsecond := @HasLines.more [' '] _ _ _ (by decide) hreturn (fun _ => by decide) hthird
  have hfirst := @HasLines.more "\tp & q # first".toList _ _ _ (by decide) hboth
    (fun heq => absurd heq (by decide)) hsecond
  have htext : "\tp & q # first".toList ++ (['\r', '\n'] ++ ([' '] ++ (['\r'] ++ (['#'] ++
      (['\n'] ++ ([] ++ (['\r'] ++ "r \x85| s\u2028".toList))))))) = text.toList := by
    decide
  rw [htext] at hfirst
  have hfirstText : HasText "\tp & q # first".toList "p & q".toList :=
    @HasText.intro ['\t'] "p & q".toList [' '] "# first".toList (by decide) (by decide) (by decide)
      (by decide) (by decide)
  have hblank : HasText [' '] [] :=
    @HasText.intro [' '] [] [] [] (by decide) (by decide) (by decide) (by decide) (by decide)
  have hcomment : HasText ['#'] [] :=
    @HasText.intro [] [] [] ['#'] (by decide) (by decide) (by decide) (by decide) (by decide)
  have hempty : HasText [] [] :=
    @HasText.intro [] [] [] [] (by decide) (by decide) (by decide) (by decide) (by decide)
  have hlastText : HasText "r \x85| s\u2028".toList "r \x85| s".toList :=
    @HasText.intro [] "r \x85| s".toList ['\u2028'] [] (by decide) (by decide) (by decide) (by decide)
      (by decide)
  have hparts : LineByLine text.toList
      ["\tp & q # first".toList, [' '], ['#'], [], "r \x85| s\u2028".toList]
      ["p & q".toList, [], [], [], "r \x85| s".toList] :=
    ⟨hfirst, .cons hfirstText (.cons hblank (.cons hcomment (.cons hempty (.cons hlastText .nil))))⟩
  obtain ⟨lines, parts, _, _, hunique, rfl, hgives, _, _, hback⟩ := formulas_line_by_line.1 text
  obtain ⟨rfl, rfl⟩ := hunique _ _ hparts
  have hwritten : OnePerLine ["p & q", "r \x85| s"] "p & q\rr \x85| s".toList :=
    .cons "p & q" hreturn (.last "r \x85| s")
  exact ⟨hparts, hgives, hwritten, hback _ hwritten, hreturn,
    formulas_line_by_line.2 text "\n# r" ['\r'] hreturn⟩

end FormulaFile

end Propositional
