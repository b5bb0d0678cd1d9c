import Propositional.Proofs.Result
import Propositional.Table.Basic

/-!
# The stages of a truth table

A table is made in stages, and each stage can fail.  What is known of a table that was made is read
off the stages here once:

* `truthTable_of_readText` — the table of a text is that of its formula;
* `truthTable_eq_ok_iff` — the text has tokens, the tokens have a formula, and this has the table;
* `truthTable_eq_error_iff`, `truthTable_of_parse_error` — or one of these is missing;
* `table_eq_ok_iff` — the parts of the table of a formula.
-/

namespace Propositional

/-! ### The stages -/

theorem readText_eq_ok_iff {source : String} {strict : Bool} {f : Formula} :
    readText source strict = .ok f ↔
      ∃ tokens, lex source = .ok tokens ∧ parse tokens strict = .ok f := by
  simp only [readText, bind_eq_ok_iff, mapError_eq_ok_iff]

/-- The table of a text is that of its formula. -/
theorem truthTable_of_readText {source : String} {strict : Bool} {f : Formula}
    (h : readText source strict = .ok f) (maxVars : Option Int) :
    truthTable source strict maxVars = f.table maxVars := by
  rw [truthTable, h]
  rfl

/-- A text has a table exactly if its tokens have a formula that has the table. -/
theorem truthTable_eq_ok_iff {source : String} {strict : Bool} {maxVars : Option Int}
    {table : TruthTable} :
    truthTable source strict maxVars = .ok table ↔
      ∃ tokens f, lex source = .ok tokens ∧ parse tokens strict = .ok f ∧
        f.table maxVars = .ok table := by
  simp only [truthTable, bind_eq_ok_iff, readText_eq_ok_iff]
  constructor
  · rintro ⟨f, ⟨tokens, hlex, hparse⟩, htable⟩
    exact ⟨tokens, f, hlex, hparse, htable⟩
  · rintro ⟨tokens, f, hlex, hparse, htable⟩
    exact ⟨f, ⟨tokens, hlex, hparse⟩, htable⟩

/-- A text has no table for one of three reasons: it has no tokens, its tokens have no formula, or its
formula has no table. -/
theorem truthTable_eq_error_iff {source : String} {strict : Bool} {maxVars : Option Int}
    {e : FormulaError} :
    truthTable source strict maxVars = .error e ↔
      (∃ cause, lex source = .error cause ∧ FormulaError.lex cause = e) ∨
      (∃ tokens cause, lex source = .ok tokens ∧ parse tokens strict = .error cause ∧
        FormulaError.parse cause = e) ∨
      ∃ tokens f, lex source = .ok tokens ∧ parse tokens strict = .ok f ∧
        f.table maxVars = .error e := by
  simp only [truthTable, readText, bind_eq_error_iff, bind_eq_ok_iff, mapError_eq_ok_iff,
    mapError_eq_error_iff]
  constructor
  · rintro ((⟨cause, hcause⟩ | ⟨tokens, hlex, cause, hcause⟩) | ⟨f, ⟨tokens, hlex, hparse⟩, htable⟩)
    · exact .inl ⟨cause, hcause⟩
    · exact .inr (.inl ⟨tokens, cause, hlex, hcause⟩)
    · exact .inr (.inr ⟨tokens, f, hlex, hparse, htable⟩)
  · rintro (⟨cause, hcause⟩ | ⟨tokens, cause, hlex, hcause⟩ | ⟨tokens, f, hlex, hparse, htable⟩)
    · exact .inl (.inl ⟨cause, hcause⟩)
    · exact .inl (.inr ⟨tokens, hlex, cause, hcause⟩)
    · exact .inr ⟨f, ⟨tokens, hlex, hparse⟩, htable⟩

/-- A text whose tokens have no formula has no table under any bound. -/
theorem truthTable_of_parse_error {source : String} {tokens : List Token} {strict : Bool} {e : ParseError}
    (hlex : lex source = .ok tokens) (hparse : parse tokens strict = .error e) (maxVars : Option Int) :
    truthTable source strict maxVars = .error (.parse e) :=
  truthTable_eq_error_iff.2 (.inr (.inl ⟨tokens, e, hlex, hparse, rfl⟩))

theorem tableOver_eq_ok_iff {f : Formula} {names : List String} {table : TruthTable} :
    f.tableOver names = .ok table ↔
      table.names = names ∧ table.rows = bitRows names.length ∧
        f.evalRows names (bitRows names.length) = .ok table.values ∧
        f.label = .ok table.label := by
  simp only [Formula.tableOver, bind_eq_ok_iff, mapError_eq_ok_iff]
  constructor
  · rintro ⟨values, hvalues, label, hlabel, htable⟩
    cases htable
    exact ⟨rfl, rfl, hvalues, hlabel⟩
  · rintro ⟨hnames, hrows, hvalues, hlabel⟩
    refine ⟨_, hvalues, _, hlabel, ?_⟩
    rw [← hnames] at hrows ⊢
    rw [← hrows]
    rfl

/-- A list of names keeps the bound on their number, if there is one. -/
def Allows (maxVars : Option Int) (names : List String) : Prop :=
  ∀ allowed ∈ maxVars, (names.length : Int) ≤ allowed

theorem allows_iff {maxVars : Option Int} {names : List String} :
    (maxVars.filter fun allowed => decide (allowed < (names.length : Int))) = none ↔
      Allows maxVars names := by
  rw [Option.filter_eq_none_iff]
  simp [Allows]

/-- The parts of the table of a formula. -/
theorem table_eq_ok_iff {f : Formula} {maxVars : Option Int} {table : TruthTable} :
    f.table maxVars = .ok table ↔
      f.names = .ok table.names ∧ Allows maxVars table.names ∧
        table.rows = bitRows table.names.length ∧
        f.evalRows table.names table.rows = .ok table.values ∧ f.label = .ok table.label := by
  simp only [Formula.table, bind_eq_ok_iff, mapError_eq_ok_iff]
  constructor
  · rintro ⟨names, hnames, htable⟩
    cases hallows : maxVars.filter fun allowed => decide (allowed < (names.length : Int)) with
    | some allowed =>
      rw [hallows] at htable
      cases htable
    | none =>
      rw [hallows] at htable
      obtain ⟨rfl, hrows, hvalues, hlabel⟩ := tableOver_eq_ok_iff.1 htable
      exact ⟨hnames, allows_iff.1 hallows, hrows, by rwa [hrows], hlabel⟩
  · rintro ⟨hnames, hallows, hrows, hvalues, hlabel⟩
    refine ⟨table.names, hnames, ?_⟩
    rw [allows_iff.2 hallows]
    rw [hrows] at hvalues
    exact tableOver_eq_ok_iff.2 ⟨rfl, hrows, hvalues, hlabel⟩

end Propositional
