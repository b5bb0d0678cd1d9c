import Mathlib.Data.List.Dedup
import Propositional.Proofs.Formula.Written
import Propositional.Proofs.Table.Values

/-!
# The bound on the number of variables

A formula without foreign leaves has one table.  The bound decides whether it is given, and nothing
else.

* `Formula.nameCount` — the number of distinct variables of a formula;
* `Formula.Native.exists_table` — the table, and the error where there are too many variables;
* `exists_table_iff_of_native`, `table_eq_error_iff_of_native` — both as equivalences;
* `table_unique_of_native` — under two bounds the table is the same;
* `isTruthTable_of_table_eq_ok` — the table is the truth table of the formula.
-/

namespace Propositional

/-- The number of distinct variables of a formula. -/
def Formula.nameCount (f : Formula) : Nat := f.occurrences.dedup.length

/-- Collected one after the other, the distinct names are as many. -/
theorem length_foldl_insertName (f : Formula) :
    (f.occurrences.foldl insertName []).length = f.nameCount := by
  have hnodup : (f.occurrences.foldl insertName []).Nodup := nodup_foldl_insertName List.nodup_nil _
  have hperm : (f.occurrences.foldl insertName []).Perm f.occurrences.dedup := by
    rw [List.perm_ext_iff_of_nodup hnodup (List.nodup_dedup _)]
    intro name
    simp [mem_foldl_insertName_iff]
  exact hperm.length_eq

/-- The names and values of the table of a formula are its truth table. -/
theorem isTruthTable_of_table_eq_ok {f : Formula} (h : f.Native) {maxVars : Option Int}
    {table : TruthTable} (htable : f.table maxVars = .ok table) :
    IsTruthTable f table.names table.values := by
  obtain ⟨hnames, _, hrows, hvalues, _⟩ := table_eq_ok_iff.1 htable
  rw [hrows] at hvalues
  obtain ⟨names, values, hevaluate, hclassical⟩ := exists_evaluate_eq_ok h
  rw [evaluate_eq_ok_iff.2 ⟨hnames, hvalues⟩] at hevaluate
  cases hevaluate
  exact hclassical

/-- A formula without foreign leaves has one table, which is given unless there are more variables than
allowed. -/
theorem Formula.Native.exists_table {f : Formula} (h : f.Native) :
    ∃ table : TruthTable, table.names.length = f.nameCount ∧
      (∀ maxVars : Option Int, (∀ allowed ∈ maxVars, (f.nameCount : Int) ≤ allowed) →
        f.table maxVars = .ok table) ∧
      ∀ allowed : Int, allowed < f.nameCount →
        f.table (some allowed) = .error (.tooManyVariables f.nameCount allowed) := by
  obtain ⟨names, values, hevaluate, _⟩ := exists_evaluate_eq_ok h
  obtain ⟨hnames, hvalues⟩ := evaluate_eq_ok_iff.1 hevaluate
  have hlength : names.length = f.nameCount := by
    rw [names_eq_foldl h] at hnames
    cases hnames
    exact length_foldl_insertName f
  refine ⟨⟨names, String.ofList f.written, bitRows names.length, values⟩, hlength, ?_, ?_⟩
  · intro maxVars hallowed
    refine table_eq_ok_iff.2 ⟨hnames, ?_, rfl, hvalues, label_eq_written h⟩
    rwa [Allows, hlength]
  · intro allowed hlt
    rw [← hlength] at hlt ⊢
    have hfilter : ((some allowed).filter fun allowed => decide (allowed < (names.length : Int))) =
        some allowed := by simp [hlt]
    rw [Formula.table, hnames]
    simp only [Except.mapError, bind, Except.bind, hfilter]

/-- The bound, if there is one, is kept or broken. -/
theorem allowed_or_exceeded (count : Nat) (maxVars : Option Int) :
    (∀ allowed ∈ maxVars, (count : Int) ≤ allowed) ∨
      ∃ allowed, maxVars = some allowed ∧ allowed < count := by
  cases maxVars with
  | none => exact .inl (by simp)
  | some allowed =>
    rcases Int.lt_or_le allowed count with hlt | hge
    · exact .inr ⟨allowed, rfl, hlt⟩
    · exact .inl (by simpa using hge)

/-- A formula without foreign leaves has a table exactly if it keeps the bound. -/
theorem exists_table_iff_of_native {f : Formula} (h : f.Native) {maxVars : Option Int} :
    (∃ table, f.table maxVars = .ok table) ↔ ∀ allowed ∈ maxVars, (f.nameCount : Int) ≤ allowed := by
  obtain ⟨table, _, hok, herror⟩ := h.exists_table
  constructor
  · rintro ⟨found, hfound⟩
    rcases allowed_or_exceeded f.nameCount maxVars with hallowed | ⟨allowed, rfl, hlt⟩
    · exact hallowed
    · rw [herror allowed hlt] at hfound
      cases hfound
  · intro hallowed
    exact ⟨table, hok maxVars hallowed⟩

/-- The only error of a formula without foreign leaves is that it has more variables than allowed. -/
theorem table_eq_error_iff_of_native {f : Formula} (h : f.Native) {maxVars : Option Int}
    {e : FormulaError} :
    f.table maxVars = .error e ↔ ∃ allowed, maxVars = some allowed ∧ allowed < f.nameCount ∧
      e = .tooManyVariables f.nameCount allowed := by
  obtain ⟨table, _, hok, herror⟩ := h.exists_table
  constructor
  · intro hfound
    rcases allowed_or_exceeded f.nameCount maxVars with hallowed | ⟨allowed, rfl, hlt⟩
    · rw [hok maxVars hallowed] at hfound
      cases hfound
    · rw [herror allowed hlt] at hfound
      cases hfound
      exact ⟨allowed, rfl, hlt, rfl⟩
  · rintro ⟨allowed, rfl, hlt, rfl⟩
    exact herror allowed hlt

/-- Two bounds give the same table, if both give one. -/
theorem table_unique_of_native {f : Formula} (h : f.Native) {maxVars maxVars' : Option Int}
    {table table' : TruthTable} (htable : f.table maxVars = .ok table)
    (htable' : f.table maxVars' = .ok table') : table' = table := by
  obtain ⟨found, _, hok, _⟩ := h.exists_table
  have hallowed := (exists_table_iff_of_native h).1 ⟨_, htable⟩
  have hallowed' := (exists_table_iff_of_native h).1 ⟨_, htable'⟩
  rw [hok _ hallowed] at htable
  rw [hok _ hallowed'] at htable'
  rw [← Except.ok.inj htable, ← Except.ok.inj htable']

end Propositional
