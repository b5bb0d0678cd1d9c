import Propositional.Proofs.Formula.Printed
import Propositional.Proofs.Table.Stages

/-!
# A label is read back

The label of a table is the canonical text of a formula that was parsed.

* `truthTable_label` — it is read back as the same formula, and so it has the same table.
-/

namespace Propositional

/-- **A label is read back.**  Whenever a text has a table, the label of the table has tokens, strict
parsing gives the formula of the text back, and the label has the same table. -/
theorem truthTable_label {source : String} {strict : Bool} {maxVars : Option Int}
    {table : TruthTable} (h : truthTable source strict maxVars = .ok table) :
    ∃ tokens f labelTokens, lex source = .ok tokens ∧ parse tokens strict = .ok f ∧
      f.label = .ok table.label ∧ lex table.label = .ok labelTokens ∧
      parse labelTokens true = .ok f ∧ truthTable table.label true maxVars = .ok table := by
  obtain ⟨tokens, f, hlex, hparse, htable⟩ := truthTable_eq_ok_iff.1 h
  obtain ⟨_, _, _, _, hlabel⟩ := table_eq_ok_iff.1 htable
  obtain ⟨label, labelTokens, hwritten, hlabelLex, hlabelParse⟩ := parse_label hlex hparse
  rw [hlabel] at hwritten
  cases hwritten
  exact ⟨tokens, f, labelTokens, hlex, hparse, hlabel, hlabelLex, hlabelParse,
    truthTable_eq_ok_iff.2 ⟨labelTokens, f, hlabelLex, hlabelParse, htable⟩⟩

/-- A label in signs reads back, whatever words, blanks and rest the text has. -/
theorem truthTable_label_of_words :
    ∃ table, truthTable "not(a vb)If\nTRUE<->~é ) q" false (some 3) = .ok table ∧
      table.label = "¬(a ∨ b) → ⊤ ↔ ¬é" ∧
      ∃ tokens f labelTokens, lex "not(a vb)If\nTRUE<->~é ) q" = .ok tokens ∧
        parse tokens false = .ok f ∧ f.label = .ok table.label ∧
        lex table.label = .ok labelTokens ∧ parse labelTokens true = .ok f ∧
        truthTable table.label true (some 3) = .ok table := by
  have htable : truthTable "not(a vb)If\nTRUE<->~é ) q" false (some 3) =
      .ok ⟨["a", "b", "é"], "¬(a ∨ b) → ⊤ ↔ ¬é", bitRows 3,
        [true, false, true, false, true, false, true, false]⟩ := by decide +kernel
  exact ⟨_, htable, rfl, truthTable_label htable⟩

end Propositional
