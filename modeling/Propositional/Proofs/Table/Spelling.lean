import Propositional.Proofs.Formula.Spelling
import Propositional.Proofs.Table.Stages

/-!
# The spelling of a text does not matter

* `truthTable_alike` — texts whose tokens have the same kinds and names have the same table, or errors of
  the same stage.
-/

namespace Propositional

/-- Texts whose tokens have the same shapes have the same table, or none.  Then the errors are those of
their tokens, which match, or the same error of the formula. -/
theorem truthTable_alike_cases {source other : String} {tokens others : List Token}
    (hlex : lex source = .ok tokens) (hlexOther : lex other = .ok others)
    (h : tokens.map Token.shape = others.map Token.shape) (strict : Bool) (maxVars : Option Int) :
    (truthTable source strict maxVars = truthTable other strict maxVars) ∨
    ∃ e e', truthTable source strict maxVars = .error (.parse e) ∧
      truthTable other strict maxVars = .error (.parse e') ∧
      e.Matches (InSamePlace tokens others) e' := by
  rcases (parse_alike h strict).1 with ⟨f, hparse, hparseOther⟩ | ⟨e, e', hparse, hparseOther, hmatches⟩
  · have hread : readText source strict = .ok f := readText_eq_ok_iff.2 ⟨_, hlex, hparse⟩
    have hreadOther : readText other strict = .ok f := readText_eq_ok_iff.2 ⟨_, hlexOther, hparseOther⟩
    exact .inl ((truthTable_of_readText hread maxVars).trans (truthTable_of_readText hreadOther maxVars).symm)
  · exact .inr ⟨e, e', truthTable_of_parse_error hlex hparse maxVars,
      truthTable_of_parse_error hlexOther hparseOther maxVars, hmatches⟩

/-- **The spelling of a text does not matter.**  Token sequences with the same kinds, and with the same
lexemes where these are names, are parsed in either mode to the same formula, or parsing fails on both,
with errors that report the tokens at the same places, and stops at the same place.  So texts with such
tokens have in either mode and under any bound the same table, or none, for errors of the same stage. -/
theorem truthTable_alike :
    (∀ tokens others : List Token, tokens.map Token.shape = others.map Token.shape → ∀ strict,
      ((∃ f, parse tokens strict = .ok f ∧ parse others strict = .ok f) ∨
        ∃ e e', parse tokens strict = .error e ∧ parse others strict = .error e' ∧
          e.Matches (InSamePlace tokens others) e') ∧
      ((∃ p q, Parser.ofTokens tokens = .ok p ∧ Parser.ofTokens others = .ok q ∧
          (p.run strict).2.cursor = (q.run strict).2.cursor) ∨
        Parser.ofTokens tokens = .error ⟨.missingEnd, none⟩ ∧
          Parser.ofTokens others = .error ⟨.missingEnd, none⟩)) ∧
    ∀ source other tokens others, lex source = .ok tokens → lex other = .ok others →
      tokens.map Token.shape = others.map Token.shape → ∀ strict maxVars,
      (∃ table, truthTable source strict maxVars = .ok table ∧
        truthTable other strict maxVars = .ok table) ∨
      ∃ e e', truthTable source strict maxVars = .error e ∧
        truthTable other strict maxVars = .error e' ∧ e.diagnostic.stage = e'.diagnostic.stage := by
  refine ⟨fun tokens others h strict => parse_alike h strict, ?_⟩
  intro source other tokens others hlex hlexOther h strict maxVars
  rcases truthTable_alike_cases hlex hlexOther h strict maxVars with
    hsame | ⟨e, e', herror, herrorOther, _⟩
  · rw [hsame]
    cases truthTable other strict maxVars with
    | ok table => exact .inl ⟨table, rfl, rfl⟩
    | error e => exact .inr ⟨e, e, rfl, rfl, rfl⟩
  · exact .inr ⟨_, _, herror, herrorOther, rfl⟩

/-- Keywords and glyphs write the same conjunction, and the same parenthesis is missing at the end of
both. -/
theorem truthTable_alike_keywords :
    (∃ tokens others, lex "Not p aNd q2 iff TRUE" = .ok tokens ∧ lex "~p&q2<->⊤" = .ok others ∧
      tokens.map Token.shape = others.map Token.shape ∧
      ∃ table, truthTable "Not p aNd q2 iff TRUE" true none = .ok table ∧
        truthTable "~p&q2<->⊤" true none = .ok table) ∧
    ∃ tokens others, lex "p v\n(q" = .ok tokens ∧ lex "p or( q" = .ok others ∧
      parse tokens false = .error ⟨.unclosed 4, some 6⟩ ∧
      parse others false = .error ⟨.unclosed 4, some 7⟩ ∧
      ParseError.Matches (InSamePlace tokens others) ⟨.unclosed 4, some 6⟩ ⟨.unclosed 4, some 7⟩ := by
  constructor
  · have hlex : lex "Not p aNd q2 iff TRUE" = .ok
        [⟨.negation, "Not", 0⟩, ⟨.name, "p", 4⟩, ⟨.connective .conj, "aNd", 6⟩, ⟨.name, "q2", 10⟩,
          ⟨.connective .iff, "iff", 13⟩, ⟨.const true, "TRUE", 17⟩, ⟨.endMark, "", 21⟩] := by
      decide +kernel
    have hlexOther : lex "~p&q2<->⊤" = .ok
        [⟨.negation, "~", 0⟩, ⟨.name, "p", 1⟩, ⟨.connective .conj, "&", 2⟩, ⟨.name, "q2", 3⟩,
          ⟨.connective .iff, "<->", 5⟩, ⟨.const true, "⊤", 8⟩, ⟨.endMark, "", 9⟩] := by
      decide +kernel
    have htable : truthTable "~p&q2<->⊤" true none =
        .ok ⟨["p", "q2"], "¬p ∧ q2 ↔ ⊤", bitRows 2, [false, true, false, false]⟩ := by
      decide +kernel
    refine ⟨_, _, hlex, hlexOther, rfl, ?_⟩
    rcases truthTable_alike.2 _ _ _ _ hlex hlexOther rfl true none with
      hboth | ⟨_, _, _, herror, _⟩
    · exact hboth
    · rw [htable] at herror
      cases herror
  · let tokens : List Token :=
      [⟨.name, "p", 0⟩, ⟨.connective .disj, "v", 2⟩, ⟨.openParen, "(", 4⟩, ⟨.name, "q", 5⟩,
        ⟨.endMark, "", 6⟩]
    let others : List Token :=
      [⟨.name, "p", 0⟩, ⟨.connective .disj, "or", 2⟩, ⟨.openParen, "(", 4⟩, ⟨.name, "q", 6⟩,
        ⟨.endMark, "", 7⟩]
    have hlex : lex "p v\n(q" = .ok tokens := by decide +kernel
    have hlexOther : lex "p or( q" = .ok others := by decide +kernel
    have hparse : parse tokens false = .error ⟨.unclosed 4, some 6⟩ := by decide +kernel
    have hparseOther : parse others false = .error ⟨.unclosed 4, some 7⟩ := by decide +kernel
    refine ⟨tokens, others, hlex, hlexOther, hparse, hparseOther, ?_⟩
    rcases (truthTable_alike.1 tokens others rfl false).1 with
      ⟨f, hok, _⟩ | ⟨e, e', herror, herrorOther, hmatches⟩
    · rw [hparse] at hok
      cases hok
    · rw [hparse] at herror
      rw [hparseOther] at herrorOther
      cases herror
      cases herrorOther
      exact hmatches

end Propositional
