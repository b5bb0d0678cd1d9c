import Propositional.Proofs.Formula.Printed
import Propositional.Proofs.Formula.Renaming
import Propositional.Proofs.Table.Bound

/-!
# The table of a formula with other names

The names of the variables stand in the heading and in the label of a table, and nowhere else.

* `lookup_columns_map` — a renamed column is found where the column is; `denote_rename_rowValuation` — so a
  renamed formula has the same value on each row;
* `evaluate_rename` — the names and values of a renamed formula;
* `TruthTable.Renamed` — a table with other names; `table_rename` — the table of a renamed formula;
* `truthTable_renamed` — all this for formulas, and for texts of which one is the other with its names
  renamed.
-/

namespace Propositional

/-! ### Values -/

/-- A renamed column is found where the column is. -/
theorem lookup_columns_map {ρ : String → String} {names : List String} {name : String}
    (h : KeepsApart ρ (names ++ [name])) (row : List Bool) :
    (columns (names.map ρ) row).lookup (ρ name) = (columns names row).lookup name := by
  have hrenamed : columns (names.map ρ) row = (columns names row).map (Prod.map ρ id) := by
    simp [columns, List.zip_map_left]
  have hfound : ∀ column ∈ columns names row, column.1 ∈ names := by
    intro column hcolumn
    exact (List.of_mem_zip (List.mem_reverse.1 hcolumn)).1
  rw [hrenamed]
  generalize columns names row = found at hfound
  induction found with
  | nil => rfl
  | cons column found ih =>
    obtain ⟨x, value⟩ := column
    have hx : x ∈ names := hfound _ List.mem_cons_self
    have hsame : (ρ name == ρ x) = (name == x) := by
      rw [Bool.eq_iff_iff, beq_iff_eq, beq_iff_eq]
      exact ⟨h name (by simp) x (by simp [hx]), congrArg ρ⟩
    rw [List.map_cons, Prod.map_apply, List.lookup_cons, List.lookup_cons, hsame,
      ih fun later hlater => hfound later (List.mem_cons_of_mem _ hlater)]
    rfl

/-- A renamed formula has the same value on each row. -/
theorem denote_rename_rowValuation {f : Formula} {ρ : String → String} {names : List String}
    (hapart : KeepsApart ρ names) (hnames : ∀ name ∈ f.occurrences, name ∈ names) (row : List Bool) :
    (f.rename ρ).denote (rowValuation (names.map ρ) row) = f.denote (rowValuation names row) := by
  rw [Formula.denote_rename]
  refine Formula.denote_congr fun name hname => ?_
  have hone : KeepsApart ρ (names ++ [name]) := by
    refine hapart.of_subset fun x hx => ?_
    rcases List.mem_append.1 hx with hx | hx
    · exact hx
    · rw [List.mem_singleton.1 hx]
      exact hnames name hname
  rw [rowValuation, rowValuation, lookup_columns_map hone]

/-- The names of a renamed formula are the renamed ones, and its values are the same. -/
theorem evaluate_rename {f : Formula} (h : f.Native) {ρ : String → String}
    (hapart : KeepsApart ρ f.occurrences) {names : List String} {values : List Bool}
    (hevaluate : f.evaluate = .ok (names, values)) :
    (f.rename ρ).evaluate = .ok (names.map ρ, values) := by
  rw [evaluate_eq_ok h rfl] at hevaluate
  cases hevaluate
  rw [evaluate_eq_ok (Formula.native_rename h ρ) (collected_rename hapart).symm, List.length_map]
  have hnames : KeepsApart ρ (f.occurrences.foldl insertName []) :=
    hapart.of_subset fun x hx => mem_collected_names_iff.1 hx
  refine congrArg (fun values => Except.ok (_, values)) (List.map_congr_left fun row _ => ?_)
  exact denote_rename_rowValuation hnames (fun name hname => mem_collected_names_iff.2 hname) row

/-! ### Tables -/

/-- A table is another one with its variables renamed, the label of which consists of the given pieces.  Only the
names change: rows, values and verdicts are the same. -/
structure TruthTable.Renamed (ρ : String → String) (pieces : List Piece) (t t' : TruthTable) : Prop where
  names : t'.names = t.names.map ρ
  rows : t'.rows = t.rows
  values : t'.values = t.values
  tautology : t'.isTautology = t.isTautology
  contradiction : t'.isContradiction = t.isContradiction
  satisfiable : t'.isSatisfiable = t.isSatisfiable
  label : t.label = String.ofList (pieces.flatMap Piece.text)
  label_renamed : t'.label = String.ofList ((pieces.map (Piece.rename ρ)).flatMap Piece.text)

/-- The tables of a formula and a renamed one. -/
theorem renamed_of_table {f : Formula} (h : f.Native) {ρ : String → String}
    (hapart : KeepsApart ρ f.occurrences) {maxVars maxVars' : Option Int} {table table' : TruthTable}
    (htable : f.table maxVars = .ok table) (htable' : (f.rename ρ).table maxVars' = .ok table') :
    table.Renamed ρ f.pieces table' := by
  obtain ⟨hnames, _, hrows, hvalues, hlabel⟩ := table_eq_ok_iff.1 htable
  obtain ⟨hnames', _, hrows', hvalues', hlabel'⟩ := table_eq_ok_iff.1 htable'
  rw [hrows] at hvalues
  rw [hrows'] at hvalues'
  have hevaluate := evaluate_eq_ok_iff.2 ⟨hnames', hvalues'⟩
  rw [evaluate_rename h hapart (evaluate_eq_ok_iff.2 ⟨hnames, hvalues⟩)] at hevaluate
  obtain ⟨hsame, hsameValues⟩ := Prod.mk.inj (Except.ok.inj hevaluate)
  rw [label_eq_written h] at hlabel
  rw [label_eq_written (Formula.native_rename h ρ)] at hlabel'
  exact {
    names := hsame.symm
    rows := by rw [hrows, hrows', ← hsame, List.length_map]
    values := hsameValues.symm
    tautology := by rw [TruthTable.isTautology, TruthTable.isTautology, hsameValues]
    contradiction := by rw [TruthTable.isContradiction, TruthTable.isContradiction, hsameValues]
    satisfiable := by rw [TruthTable.isSatisfiable, TruthTable.isSatisfiable, hsameValues]
    label := by rw [← Except.ok.inj hlabel, f.written_eq_pieces]
    label_renamed := by
      rw [← Except.ok.inj hlabel', (f.rename ρ).written_eq_pieces, Formula.pieces_rename] }

/-- A formula and a renamed one both have a table, or the bound is exceeded for both. -/
theorem table_rename {f : Formula} (h : f.Native) {ρ : String → String}
    (hapart : KeepsApart ρ f.occurrences) (maxVars : Option Int) :
    (∃ table table', f.table maxVars = .ok table ∧ (f.rename ρ).table maxVars = .ok table' ∧
      table.Renamed ρ f.pieces table') ∨
      ∃ e, f.table maxVars = .error e ∧ (f.rename ρ).table maxVars = .error e := by
  have hcount : (f.rename ρ).nameCount = f.nameCount := by
    rw [← length_foldl_insertName, ← length_foldl_insertName, collected_rename hapart, List.length_map]
  obtain ⟨table, _, hok, herror⟩ := h.exists_table
  obtain ⟨table', _, hok', herror'⟩ := (Formula.native_rename h ρ).exists_table
  rw [hcount] at hok' herror'
  rcases allowed_or_exceeded f.nameCount maxVars with hallowed | ⟨allowed, rfl, hlt⟩
  · have htable := hok maxVars hallowed
    have htable' := hok' maxVars hallowed
    exact .inl ⟨table, table', htable, htable', renamed_of_table h hapart htable htable'⟩
  · exact .inr ⟨_, herror allowed hlt, herror' allowed hlt⟩

/-! ### Texts -/

/-- The lexemes of the name tokens. -/
def nameLexemes (tokens : List Token) : List String :=
  (tokens.filter fun t => t.kind = .name).map Token.lexeme

/-- The names of a formula that was parsed are lexemes of name tokens. -/
theorem mem_nameLexemes_of_parse {tokens : List Token} {strict : Bool} {f : Formula}
    (hend : EndMarked tokens) (hparse : parse tokens strict = .ok f) :
    ∀ name ∈ f.occurrences, name ∈ nameLexemes tokens := by
  obtain ⟨u, rest, hsplit, hu, _⟩ := exists_of_parse hend hparse
  intro name hname
  obtain ⟨t, ht, hkind, rfl⟩ := hu.exists_name_token hname
  have hahead : t ∈ tokensAhead tokens := hsplit ▸ List.mem_append_left rest ht
  have hmem : t ∈ tokens := (List.takeWhile_sublist _).subset hahead
  exact List.mem_map_of_mem (List.mem_filter.2 ⟨hmem, decide_eq_true hkind⟩)

/-- **Other names.**  If a renaming keeps the variables of a formula apart, the variables of the renamed formula
are the renamed ones, in the same order, and it has the same values.  Take two texts whose tokens have
the same kinds, and of whose names those of the second are the renamed ones of the first.  Then in either mode and
under any bound both have a table, and one table is the other with its names renamed, in the heading as well as
in the label, or neither has one. -/
theorem truthTable_renamed :
    (∀ (f : Formula) (ρ : String → String), f.Native → KeepsApart ρ f.occurrences →
      ∃ names values, f.names = .ok names ∧ (f.rename ρ).names = .ok (names.map ρ) ∧
        f.evaluate = .ok (names, values) ∧ (f.rename ρ).evaluate = .ok (names.map ρ, values)) ∧
    ∀ (source other : String) (tokens others : List Token) (ρ : String → String),
      lex source = .ok tokens → lex other = .ok others →
      List.Forall₂ (Token.Renames ρ) tokens others → KeepsApart ρ (nameLexemes tokens) →
      ∀ strict maxVars,
      (∃ f table table', parse tokens strict = .ok f ∧ parse others strict = .ok (f.rename ρ) ∧
        truthTable source strict maxVars = .ok table ∧ truthTable other strict maxVars = .ok table' ∧
        table.Renamed ρ f.pieces table') ∨
      ∃ e e', truthTable source strict maxVars = .error e ∧
        truthTable other strict maxVars = .error e' ∧ e.diagnostic.stage = e'.diagnostic.stage := by
  constructor
  · intro f ρ h hapart
    obtain ⟨names, values, hevaluate, _⟩ := exists_evaluate_eq_ok h
    have hrenamed := evaluate_rename h hapart hevaluate
    exact ⟨names, values, (evaluate_eq_ok_iff.1 hevaluate).1, (evaluate_eq_ok_iff.1 hrenamed).1,
      hevaluate, hrenamed⟩
  · intro source other tokens others ρ hlex hlexOther hrenames hapart strict maxVars
    have hend := endMarked_of_lex hlex
    rcases parse_renamed hend hrenames strict with ⟨f, hparse, hparseOther⟩ | ⟨e, e', hparse, hparseOther⟩
    · have hnames : KeepsApart ρ f.occurrences :=
        hapart.of_subset (mem_nameLexemes_of_parse hend hparse)
      rw [truthTable_of_readText (readText_eq_ok_iff.2 ⟨_, hlex, hparse⟩),
        truthTable_of_readText (readText_eq_ok_iff.2 ⟨_, hlexOther, hparseOther⟩)]
      rcases table_rename (native_of_parse hlex hparse) hnames maxVars with
        ⟨table, table', htable, htable', hrenamed⟩ | ⟨e, herror, herror'⟩
      · exact .inl ⟨f, table, table', hparse, hparseOther, htable, htable', hrenamed⟩
      · exact .inr ⟨e, e, herror, herror', rfl⟩
    · exact .inr ⟨.parse e, .parse e', truthTable_of_parse_error hlex hparse maxVars,
        truthTable_of_parse_error hlexOther hparseOther maxVars, rfl⟩

/-- Two variables change places, also behind the formula, where they are not read. -/
theorem truthTable_renamed_swap :
    let ρ : String → String := fun x => if x = "p" then "q1" else if x = "q1" then "p" else x
    let f : Formula := .binary .imp (.var "p") (.group (.binary .conj (.var "q1") (.var "p")))
    (KeepsApart ρ f.occurrences ∧
      ∃ names values, f.names = .ok names ∧ (f.rename ρ).names = .ok (names.map ρ) ∧
        f.evaluate = .ok (names, values) ∧ (f.rename ρ).evaluate = .ok (names.map ρ, values)) ∧
    ∃ tokens others, lex "p -> (q1 & p) q1" = .ok tokens ∧ lex "q1 if (p∧ q1)p" = .ok others ∧
      List.Forall₂ (Token.Renames ρ) tokens others ∧ KeepsApart ρ (nameLexemes tokens) ∧
      ∃ table table', truthTable "p -> (q1 & p) q1" false none = .ok table ∧
        truthTable "q1 if (p∧ q1)p" false none = .ok table' ∧ table.Renamed ρ f.pieces table' ∧
        table'.label = "q1 → (p ∧ q1)" := by
  intro ρ f
  let tokens : List Token :=
    [⟨.name, "p", 0⟩, ⟨.connective .imp, "->", 2⟩, ⟨.openParen, "(", 5⟩, ⟨.name, "q1", 6⟩,
      ⟨.connective .conj, "&", 9⟩, ⟨.name, "p", 11⟩, ⟨.closeParen, ")", 12⟩, ⟨.name, "q1", 14⟩,
      ⟨.endMark, "", 16⟩]
  let others : List Token :=
    [⟨.name, "q1", 0⟩, ⟨.connective .imp, "if", 3⟩, ⟨.openParen, "(", 6⟩, ⟨.name, "p", 7⟩,
      ⟨.connective .conj, "∧", 8⟩, ⟨.name, "q1", 10⟩, ⟨.closeParen, ")", 12⟩, ⟨.name, "p", 13⟩,
      ⟨.endMark, "", 14⟩]
  have hapart : KeepsApart ρ f.occurrences := by decide +kernel
  have hlex : lex "p -> (q1 & p) q1" = .ok tokens := by decide +kernel
  have hlexOther : lex "q1 if (p∧ q1)p" = .ok others := by decide +kernel
  have hrenames : List.Forall₂ (Token.Renames ρ) tokens others := by decide +kernel
  have hkeep : KeepsApart ρ (nameLexemes tokens) := by decide +kernel
  have hparse : parse tokens false = .ok f := by decide +kernel
  have hlabel : truthTable "q1 if (p∧ q1)p" false none =
      .ok ⟨["q1", "p"], "q1 → (p ∧ q1)", bitRows 2, [true, true, false, true]⟩ := by
    decide +kernel
  refine ⟨⟨hapart, truthTable_renamed.1 f ρ (by decide) hapart⟩, tokens, others, hlex, hlexOther,
    hrenames, hkeep, ?_⟩
  rcases truthTable_renamed.2 _ _ _ _ ρ hlex hlexOther hrenames hkeep false none with
    ⟨g, table, table', hg, _, htable, htable', hrenamed⟩ | ⟨_, e', _, herror, _⟩
  · rw [hparse] at hg
    cases hg
    rw [hlabel] at htable'
    cases htable'
    exact ⟨table, _, htable, hlabel, hrenamed, rfl⟩
  · rw [hlabel] at herror
    cases herror

end Propositional
