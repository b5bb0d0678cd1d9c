import Mathlib.Data.List.TakeWhile
import Propositional.Proofs.Formula.Printed
import Propositional.Proofs.Table.Bound
import Propositional.Proofs.Table.Values
import Propositional.Table.Layout

/-!
# The heading of a table tells the formula

In the heading the names and the label stand with single blanks between them, and a label may hold names and
blanks of its own.  But behind the first blank of a label stands a connective, and none of the names and no label
begins with one.  So it can be seen where the names end.

* `written_begins` — no canonical text begins with a connective; `dropWhile_written` — behind the first blank
  of one stands a connective;
* `heading` — names and a label in one line; `heading_inj` — names and label can be told;
* `written_inj` — formulas that were parsed from texts are told by their canonical texts;
* `format_head_eq_iff` — so the first line of the table of a text tells the formula, and with it the table.
-/

namespace Propositional

/-! ### Blanks and connectives in a canonical text -/

/-- A character does not write a connective. -/
def NoConnective (c : Char) : Prop := ∀ k : Connective, c ≠ k.glyph

/-- Is a character no blank? -/
def isInside (c : Char) : Bool := c != ' '

/-- A name holds no blanks. -/
theorem IsName.isInside {name : List Char} (h : IsName name) : ∀ c ∈ name, isInside c = true := by
  cases name with
  | nil => exact h.elim
  | cons first digits =>
    obtain ⟨hletter, _, hdigits⟩ := h
    intro c hmem
    refine bne_iff_ne.2 ?_
    rintro rfl
    rcases List.mem_cons.1 hmem with rfl | hmem
    · exact absurd hletter (by decide)
    · exact absurd (hdigits ' ' hmem) (by decide)

/-- A name does not begin with a connective. -/
theorem IsName.begins {name : List Char} (h : IsName name) :
    ∃ c rest, name = c :: rest ∧ NoConnective c := by
  cases name with
  | nil => exact h.elim
  | cons c digits =>
    refine ⟨c, digits, rfl, fun k hc => ?_⟩
    have hglyph : Lexeme.glyph? k.glyph = some (.connective k) := by cases k <;> rfl
    rw [← hc, Lexeme.glyph?_eq_none_of_isLetter h.1 h.2.1] at hglyph
    cases hglyph

/-- Nor does a canonical text. -/
theorem written_begins {f : Formula} (hnative : f.Native)
    (hnames : ∀ name ∈ f.occurrences, IsName name.toList) :
    ∃ c rest, f.written = c :: rest ∧ NoConnective c := by
  induction f with
  | var name => exact (hnames name (List.mem_singleton_self name)).begins
  | const value => exact ⟨_, [], rfl, fun k => by cases value <;> cases k <;> decide⟩
  | foreign typeName => exact hnative.elim
  | neg f _ => exact ⟨_, _, rfl, fun k => by cases k <;> decide⟩
  | group f _ => exact ⟨_, _, rfl, fun k => by cases k <;> decide⟩
  | binary k l r ihl _ =>
    obtain ⟨c, rest, hl, hc⟩ :=
      ihl hnative.1 fun name hname => hnames name (List.mem_append_left _ hname)
    exact ⟨c, _, by rw [Formula.written, hl]; rfl, hc⟩

/-- Behind the first blank of a canonical text stands a connective. -/
theorem dropWhile_written {f : Formula} (hnames : ∀ name ∈ f.occurrences, IsName name.toList) :
    f.written.dropWhile isInside = [] ∨
      ∃ (k : Connective) (rest : List Char), f.written.dropWhile isInside = ' ' :: k.glyph :: rest := by
  induction f with
  | var name =>
    exact .inl (List.dropWhile_eq_nil_iff.2 (hnames name (List.mem_singleton_self name)).isInside)
  | const value => exact .inl (by cases value <;> rfl)
  | foreign typeName => exact .inl rfl
  | neg f ih =>
    have hskip : (Formula.neg f).written.dropWhile isInside = f.written.dropWhile isInside := rfl
    rw [hskip]
    exact ih hnames
  | group f ih =>
    have hskip : (Formula.group f).written.dropWhile isInside =
        (f.written ++ [')']).dropWhile isInside := rfl
    rw [hskip, List.dropWhile_append]
    rcases ih hnames with hnone | ⟨k, rest, hfound⟩
    · exact .inl (by rw [hnone]; rfl)
    · exact .inr ⟨k, rest ++ [')'], by rw [hfound]; rfl⟩
  | binary k l r ihl _ =>
    rw [Formula.written, List.append_assoc, List.dropWhile_append]
    rcases ihl fun name hname => hnames name (List.mem_append_left _ hname) with
      hnone | ⟨first, rest, hfound⟩
    · exact .inr ⟨k, ' ' :: r.written, by rw [hnone]; rfl⟩
    · exact .inr ⟨first, rest ++ ([' ', k.glyph, ' '] ++ r.written), by rw [hfound]; rfl⟩

/-! ### Names and label in a heading -/

/-- Names and a label with single blanks between them. -/
def heading (names : List String) (label : String) : List Char :=
  (" ".intercalate (names ++ [label])).toList

theorem heading_nil (label : String) : heading [] label = label.toList := by
  rw [heading, List.nil_append, String.intercalate_singleton]

theorem heading_cons (name : String) (names : List String) (label : String) :
    heading (name :: names) label = name.toList ++ ' ' :: heading names label := by
  rw [heading, List.cons_append, String.intercalate_cons_of_ne_nil (by simp), String.toList_append,
    String.toList_append, List.append_assoc]
  rfl

/-- Of a heading that begins with a name, name and rest can be told. -/
theorem cut_name {name : List Char} (h : IsName name) (rest : List Char) :
    (name ++ ' ' :: rest).takeWhile isInside = name ∧
      (name ++ ' ' :: rest).dropWhile isInside = ' ' :: rest := by
  constructor
  · rw [List.takeWhile_append_of_pos h.isInside]
    exact List.append_nil name
  · rw [List.dropWhile_append_of_pos h.isInside]
    rfl

/-- What the names over the columns of a table, and the formula in its label, must be like. -/
structure IsHeading (names : List String) (f : Formula) : Prop where
  names : ∀ name ∈ names, IsName name.toList
  native : f.Native
  occurrences : ∀ name ∈ f.occurrences, IsName name.toList

theorem IsHeading.tail {name : String} {names : List String} {f : Formula}
    (h : IsHeading (name :: names) f) : IsHeading names f :=
  ⟨fun later hlater => h.names later (List.mem_cons_of_mem name hlater), h.native, h.occurrences⟩

/-- A heading does not begin with a connective. -/
theorem IsHeading.begins {names : List String} {f : Formula} (h : IsHeading names f) :
    ∃ c rest, heading names (String.ofList f.written) = c :: rest ∧ NoConnective c := by
  cases names with
  | nil =>
    rw [heading_nil, String.toList_ofList]
    exact written_begins h.native h.occurrences
  | cons name names =>
    obtain ⟨c, rest, hname, hc⟩ := (h.names name List.mem_cons_self).begins
    exact ⟨c, _, by rw [heading_cons, hname]; rfl, hc⟩

/-- A label is not a heading with names in front of a label. -/
theorem IsHeading.written_ne {name : String} {names : List String} {f f' : Formula}
    (h : IsHeading (name :: names) f) (hnames : ∀ name ∈ f'.occurrences, IsName name.toList) :
    f'.written ≠ heading (name :: names) (String.ofList f.written) := by
  intro heq
  have hcut := (cut_name (h.names name List.mem_cons_self)
    (heading names (String.ofList f.written))).2
  rw [← heading_cons, ← heq] at hcut
  obtain ⟨c, rest, hbegins, hc⟩ := h.tail.begins
  rcases dropWhile_written hnames with hnone | ⟨k, later, hfound⟩
  · rw [hnone] at hcut
    cases hcut
  · rw [hfound, hbegins] at hcut
    cases hcut
    exact hc k rfl

/-- Names and label of a heading can be told. -/
theorem heading_inj {names others : List String} {f f' : Formula} (h : IsHeading names f)
    (h' : IsHeading others f')
    (heq : heading names (String.ofList f.written) = heading others (String.ofList f'.written)) :
    names = others ∧ f.written = f'.written := by
  induction names generalizing others with
  | nil =>
    rw [heading_nil, String.toList_ofList] at heq
    cases others with
    | nil =>
      rw [heading_nil, String.toList_ofList] at heq
      exact ⟨rfl, heq⟩
    | cons other others => exact absurd heq (h'.written_ne h.occurrences)
  | cons name names ih =>
    cases others with
    | nil =>
      rw [heading_nil, String.toList_ofList] at heq
      exact absurd heq.symm (h.written_ne h'.occurrences)
    | cons other others =>
      rw [heading_cons, heading_cons] at heq
      obtain ⟨htake, hdrop⟩ := cut_name (h.names name List.mem_cons_self)
        (heading names (String.ofList f.written))
      obtain ⟨htake', hdrop'⟩ := cut_name (h'.names other List.mem_cons_self)
        (heading others (String.ofList f'.written))
      rw [heq, htake'] at htake
      rw [heq, hdrop'] at hdrop
      obtain ⟨hnames, hwritten⟩ := ih h.tail h'.tail (List.cons.inj hdrop).2.symm
      exact ⟨by rw [hnames, String.toList_inj.1 htake], hwritten⟩

/-! ### The table of a text -/

/-- Formulas with the same canonical text that were parsed from texts are the same. -/
theorem written_inj {f f' : Formula} (h : f.Canonical ∧ f.depth ≤ nestingLimit)
    (h' : f'.Canonical ∧ f'.depth ≤ nestingLimit) (heq : f.written = f'.written) : f = f' := by
  obtain ⟨label, tokens, hlabel, hlex, hparse⟩ := parse_written h.1 h.2
  obtain ⟨label', tokens', hlabel', hlex', hparse'⟩ := parse_written h'.1 h'.2
  rw [label_eq_written h.1.native] at hlabel
  rw [label_eq_written h'.1.native, ← heq, hlabel] at hlabel'
  cases hlabel'
  rw [hlex] at hlex'
  cases hlex'
  exact Except.ok.inj ((hparse true).symm.trans (hparse' true))

/-- The names and the label of the table of a canonical formula are like that. -/
theorem isHeading_of_table {f : Formula} (h : f.Canonical) {maxVars : Option Int} {table : TruthTable}
    (htable : f.table maxVars = .ok table) :
    IsHeading table.names f ∧ table.label = String.ofList f.written := by
  obtain ⟨hnames, _⟩ := parts_of_table h.native htable
  obtain ⟨_, _, _, _, hlabel⟩ := table_eq_ok_iff.1 htable
  rw [label_eq_written h.native] at hlabel
  refine ⟨⟨fun name hname => h.names name ?_, h.native, h.names⟩, (Except.ok.inj hlabel).symm⟩
  rw [hnames] at hname
  exact mem_collected_names_iff.1 hname

/-- **A heading tells the formula.**  Let two texts have tables, in either mode and under any bounds.  Whatever
symbols are used and whichever rows are shown, the first lines of the two are the same exactly if the texts are
read as the same formula.  Then, and only then, the two tables are the same, and so are all their lines. -/
theorem format_head_eq_iff {source other : String} {strict strict' : Bool} {maxVars maxVars' : Option Int}
    {table table' : TruthTable} (h : truthTable source strict maxVars = .ok table)
    (h' : truthTable other strict' maxVars' = .ok table') :
    ∃ f f', readText source strict = .ok f ∧ readText other strict' = .ok f' ∧
      (∀ trueSymbol falseSymbol onlyOnes trueSymbol' falseSymbol' onlyOnes',
        (table.format trueSymbol falseSymbol onlyOnes).head? =
          (table'.format trueSymbol' falseSymbol' onlyOnes').head? ↔ f = f') ∧
      (table = table' ↔ f = f') ∧
      ∀ trueSymbol falseSymbol onlyOnes, table.format trueSymbol falseSymbol onlyOnes =
        table'.format trueSymbol falseSymbol onlyOnes ↔ f = f' := by
  obtain ⟨tokens, f, hlex, hparse, htable⟩ := truthTable_eq_ok_iff.1 h
  obtain ⟨tokens', f', hlex', hparse', htable'⟩ := truthTable_eq_ok_iff.1 h'
  have hcanonical := canonical_of_parse hlex hparse
  have hcanonical' := canonical_of_parse hlex' hparse'
  have hsame : f = f' → table = table' := by
    rintro rfl
    exact (table_unique_of_native hcanonical.1.native htable htable').symm
  have hheader : table.header = table'.header → f = f' := by
    intro heq
    obtain ⟨hheading, hlabel⟩ := isHeading_of_table hcanonical.1 htable
    obtain ⟨hheading', hlabel'⟩ := isHeading_of_table hcanonical'.1 htable'
    have hchars : heading table.names table.label = heading table'.names table'.label :=
      congrArg String.toList heq
    rw [hlabel, hlabel'] at hchars
    exact written_inj hcanonical hcanonical' (heading_inj hheading hheading' hchars).2
  refine ⟨f, f', readText_eq_ok_iff.2 ⟨_, hlex, hparse⟩, readText_eq_ok_iff.2 ⟨_, hlex', hparse'⟩,
    ?_, ⟨?_, hsame⟩, ?_⟩
  · intro _ _ _ _ _ _
    constructor
    · exact fun hhead => hheader (Option.some.inj hhead)
    · intro heq
      rw [hsame heq]
      rfl
  · exact fun heq => hheader (congrArg TruthTable.header heq)
  · intro _ _ _
    constructor
    · exact fun hlines => hheader (List.cons.inj hlines).1
    · exact fun heq => by rw [hsame heq]

/-- Two spellings of an implication, read in different modes and under different bounds, have the same first
line. -/
theorem format_head_eq_spelled :
    ∃ table table', truthTable "p if not q1" true (some 2) = .ok table ∧
      truthTable "p→~ q1)" false none = .ok table' ∧
      (table.format "T" "F" false).head? = some "p q1 p → ¬q1" ∧
      (table'.format "1" "0" true).head? = some "p q1 p → ¬q1" ∧
      ∃ f f', readText "p if not q1" true = .ok f ∧ readText "p→~ q1)" false = .ok f' ∧ f = f' ∧
        table = table' ∧ table.format "T" "F" false = table'.format "T" "F" false := by
  have htable : truthTable "p if not q1" true (some 2) =
      .ok ⟨["p", "q1"], "p → ¬q1", bitRows 2, [true, true, true, false]⟩ := by decide +kernel
  have htable' : truthTable "p→~ q1)" false none =
      .ok ⟨["p", "q1"], "p → ¬q1", bitRows 2, [true, true, true, false]⟩ := by decide +kernel
  obtain ⟨f, f', hread, hread', hhead, hsame, hlines⟩ := format_head_eq_iff htable htable'
  have hf : f = f' := (hhead "T" "F" false "1" "0" true).1 rfl
  exact ⟨_, _, htable, htable', by decide, by decide, f, f', hread, hread', hf, hsame.2 hf,
    (hlines "T" "F" false).2 hf⟩

end Propositional
