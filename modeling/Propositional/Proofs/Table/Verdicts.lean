import Mathlib.Data.Nat.Init
import Propositional.Proofs.Formula.Printed
import Propositional.Proofs.Table.Bound

/-!
# Verdicts are semantic

A verdict looks at the values of a table, and these are finitely many.  The rows miss no valuation, since
only the names of the formula matter.

* `nameDigits`, `exists_sendsBits` — every valuation is on the names that of some row;
* `IsTruthTable.mem_values_iff` — so the values are the truth values under all valuations;
* `TruthTable.Judges` — the verdicts of a table are true of a formula;
* `IsTruthTable.judges` — those of a truth table are;
* `TruthTable.Judges.neg` — verdicts on a formula and on its negation;
* `truthTable_judges` — the verdicts on a text.
-/

namespace Propositional

/-! ### All valuations -/

/-- The values of some names as digits, that of the last name as the lowest. -/
def nameDigits (names : List String) (valuation : String → Bool) (i : Fin names.length) : Bool :=
  valuation (names.get i.rev)

/-- Every valuation sends the names to the digits of a number. -/
theorem exists_sendsBits (names : List String) (valuation : String → Bool) :
    ∃ number < 2 ^ names.length, SendsBits names number valuation := by
  refine ⟨Nat.ofBits (nameDigits names valuation), Nat.ofBits_lt_two_pow _, fun place hplace => ?_⟩
  have hdigit : names.length - 1 - place < names.length := by omega
  have hback : Fin.rev ⟨names.length - 1 - place, hdigit⟩ = ⟨place, hplace⟩ := by
    apply Fin.ext
    show names.length - (names.length - 1 - place + 1) = place
    omega
  rw [Nat.testBit_ofBits_lt _ _ hdigit, nameDigits, hback]
  rfl

namespace IsTruthTable

variable {f : Formula} {names : List String} {values : List Bool}

/-- The values are the truth values under all valuations. -/
theorem mem_values_iff (h : IsTruthTable f names values) {value : Bool} :
    value ∈ values ↔ ∃ valuation, (value = true ↔ f.Holds valuation) := by
  constructor
  · intro hmem
    obtain ⟨number, hvalue⟩ := List.mem_iff_getElem?.1 hmem
    have hnumber : number < 2 ^ names.length := by
      rw [← h.length]
      exact (List.getElem?_eq_some_iff.1 hvalue).1
    obtain ⟨valuation, hsends⟩ := h.exists_valuation number hnumber
    obtain ⟨found, hfound, hholds⟩ := h.holds number hnumber valuation hsends
    rw [hvalue] at hfound
    cases hfound
    exact ⟨valuation, hholds⟩
  · rintro ⟨valuation, hvalue⟩
    obtain ⟨number, hnumber, hsends⟩ := exists_sendsBits names valuation
    obtain ⟨found, hfound, hholds⟩ := h.holds number hnumber valuation hsends
    have hsame : found = value := Bool.eq_iff_iff.2 (hholds.trans hvalue.symm)
    rw [← hsame]
    exact List.mem_of_getElem? hfound

end IsTruthTable

/-! ### Verdicts -/

/-- The verdicts of a table are true of a formula: they say whether it holds under every valuation,
under none, or under some. -/
structure TruthTable.Judges (t : TruthTable) (f : Formula) : Prop where
  tautology : t.isTautology = true ↔ ∀ valuation, f.Holds valuation
  contradiction : t.isContradiction = true ↔ ∀ valuation, ¬ f.Holds valuation
  satisfiable : t.isSatisfiable = true ↔ ∃ valuation, f.Holds valuation

namespace TruthTable

theorem isTautology_iff (t : TruthTable) : t.isTautology = true ↔ false ∉ t.values := by
  rw [isTautology, List.all_eq_true]
  constructor
  · intro h hmem
    cases h false hmem
  · intro h value hmem
    cases value with
    | true => rfl
    | false => exact absurd hmem h

theorem isSatisfiable_iff (t : TruthTable) : t.isSatisfiable = true ↔ true ∈ t.values := by
  simp [isSatisfiable]

theorem isContradiction_iff (t : TruthTable) : t.isContradiction = true ↔ true ∉ t.values := by
  rw [← isSatisfiable_iff, isContradiction, isSatisfiable, Bool.not_eq_true', Bool.not_eq_true]

end TruthTable

/-- The verdicts of a truth table are true of its formula. -/
theorem IsTruthTable.judges {f : Formula} {t : TruthTable} (h : IsTruthTable f t.names t.values) :
    t.Judges f where
  tautology := by
    rw [t.isTautology_iff, h.mem_values_iff]
    simp
  contradiction := by
    rw [t.isContradiction_iff, h.mem_values_iff]
    simp
  satisfiable := by
    rw [t.isSatisfiable_iff, h.mem_values_iff]
    simp

namespace TruthTable.Judges

variable {t n : TruthTable} {f : Formula}

/-- A formula holds under no valuation exactly if it does not hold under some. -/
theorem contradiction_eq (h : t.Judges f) : t.isContradiction = !t.isSatisfiable := by
  rw [Bool.eq_iff_iff, Bool.not_eq_true', Bool.eq_false_iff, ne_eq, h.contradiction, h.satisfiable]
  exact not_exists.symm

/-- Of a negation the verdicts are the opposite ones. -/
theorem neg (h : t.Judges f) (hneg : n.Judges (.neg f)) :
    n.isTautology = t.isContradiction ∧ n.isContradiction = t.isTautology ∧
      n.isSatisfiable = !t.isTautology := by
  have hcontradiction : n.isContradiction = t.isTautology := by
    rw [Bool.eq_iff_iff, hneg.contradiction, h.tautology]
    exact forall_congr' fun _ => not_not
  refine ⟨?_, hcontradiction, ?_⟩
  · rw [Bool.eq_iff_iff, hneg.tautology, h.contradiction]
    exact Iff.rfl
  · rw [← hcontradiction, hneg.contradiction_eq, Bool.not_not]

end TruthTable.Judges

/-- **Verdicts are semantic.**  The verdicts on a text are true of its formula: a tautology holds under
every valuation, a contradiction under none, and a satisfiable formula under some.  The negation of the
formula has a table as well, and the verdicts on it are the opposite ones. -/
theorem truthTable_judges {source : String} {strict : Bool} {maxVars : Option Int}
    {table : TruthTable} (h : truthTable source strict maxVars = .ok table) :
    ∃ tokens f, lex source = .ok tokens ∧ parse tokens strict = .ok f ∧
      table.Judges f ∧ table.isContradiction = !table.isSatisfiable ∧
      ∃ negated, (Formula.neg f).table maxVars = .ok negated ∧ negated.Judges (.neg f) ∧
        negated.isTautology = table.isContradiction ∧
        negated.isContradiction = table.isTautology ∧
        negated.isSatisfiable = !table.isTautology := by
  obtain ⟨tokens, f, hlex, hparse, htable⟩ := truthTable_eq_ok_iff.1 h
  have hnative : f.Native := native_of_parse hlex hparse
  have hjudges : table.Judges f := (isTruthTable_of_table_eq_ok hnative htable).judges
  -- the negation has the same names, so it keeps the bound as well
  have hallowed : ∀ allowed ∈ maxVars, ((Formula.neg f).nameCount : Int) ≤ allowed :=
    (exists_table_iff_of_native hnative).1 ⟨table, htable⟩
  have hnegNative : (Formula.neg f).Native := hnative
  obtain ⟨negated, hnegated⟩ := (exists_table_iff_of_native hnegNative).2 hallowed
  have hnegJudges : negated.Judges (.neg f) :=
    (isTruthTable_of_table_eq_ok hnegNative hnegated).judges
  exact ⟨tokens, f, hlex, hparse, hjudges, hjudges.contradiction_eq, negated, hnegated, hnegJudges,
    hjudges.neg hnegJudges⟩

/-- A law of classical logic holds under every valuation, and its negation is a contradiction. -/
theorem truthTable_judges_classical :
    ∃ table, truthTable "((p -> q) -> p) -> p" true (some 2) = .ok table ∧
      table.isTautology = true ∧
      ∃ tokens f, lex "((p -> q) -> p) -> p" = .ok tokens ∧ parse tokens true = .ok f ∧
        (∀ valuation, f.Holds valuation) ∧
        ∃ negated, (Formula.neg f).table (some 2) = .ok negated ∧ negated.isContradiction = true := by
  have htable : truthTable "((p -> q) -> p) -> p" true (some 2) =
      .ok ⟨["p", "q"], "((p → q) → p) → p", bitRows 2, [true, true, true, true]⟩ := by
    decide +kernel
  obtain ⟨tokens, f, hlex, hparse, hjudges, _, negated, hnegated, _, _, hopposite, _⟩ :=
    truthTable_judges htable
  exact ⟨_, htable, rfl, tokens, f, hlex, hparse, hjudges.tautology.1 rfl, negated, hnegated, hopposite⟩

end Propositional
