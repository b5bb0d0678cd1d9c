import Propositional.Proofs.Formula.Canonical
import Propositional.Proofs.Formula.Parsing
import Propositional.Proofs.Formula.Written

/-!
# Which formulas are read back from their text

* `endMarked_append_endMark`, `endMarked_of_lex`, `tokensAhead_append_endMark` — the tokens of a text end
  with the only end mark;
* `parse_strict_of_derives`, `parse_strict_of_graded` — they are parsed strictly to the formula that they
  write;
* `canonical_of_parse` — a formula that was parsed from a text is canonical;
* `parse_written` — the canonical text of a canonical formula has tokens, and parsing gives the formula
  back;
* `parse_label_iff_canonical` — so the canonical formulas are those that parsing gives, and those that
  are read back from their own text.
-/

namespace Propositional

theorem endMarked_append_endMark (found : List Token) (place : Int) :
    EndMarked (found ++ [Token.endMark place]) :=
  ⟨Token.endMark place, by simp, rfl⟩

theorem endMarked_of_lex {source : String} {tokens : List Token} (h : lex source = .ok tokens) :
    EndMarked tokens := by
  obtain ⟨found, _, rfl⟩ := munch_of_lex h
  exact endMarked_append_endMark found _

theorem tokensAhead_append_endMark {found : List Token} (h : ∀ t ∈ found, t.kind ≠ .endMark)
    (place : Int) : tokensAhead (found ++ [Token.endMark place]) = found :=
  tokensAhead_append h rfl

/-- Tokens that write a formula are parsed strictly to it. -/
theorem parse_strict_of_derives {u : List Token} {f : Formula} (hu : Derives .loosest u f)
    (hnest : NestedWithin nestingLimit u) (hmark : ∀ t ∈ u, t.kind ≠ .endMark) (place : Int) :
    parse (u ++ [Token.endMark place]) true = .ok f := by
  have hahead := tokensAhead_append_endMark hmark place
  rw [← hahead] at hu hnest
  exact (parse_strict_iff (endMarked_append_endMark u place) hnest).2 hu

/-- The tokens of a formula that is not nested too deep are parsed strictly to it. -/
theorem parse_strict_of_graded {f : Formula} (hgraded : f.Graded) (hnative : f.Native)
    (hdepth : f.depth ≤ nestingLimit) {found : List Token} (hshapes : found.map Token.shape = f.shapes)
    (hmark : ∀ t ∈ found, t.kind ≠ .endMark) (place : Int) :
    parse (found ++ [Token.endMark place]) true = .ok f := by
  have hderives : Derives .loosest found f :=
    (hgraded.derives hnative hshapes).loosen f.level.loosest_strength_le
  refine parse_strict_of_derives hderives ?_ hmark place
  exact nestedWithin_iff_nestedBelow.2 (hderives.nestedBelow_iff.2 (Nat.lt_succ_of_le hdepth))

theorem Legal.isName {lexeme : List Char} (h : Legal lexeme .name) : IsName lexeme := by
  cases h with
  | sign spelling declared _ =>
    have hall : ∀ sign ∈ signs, sign.2 ≠ .name := by decide
    exact absurd rfl (hall _ declared)
  | word spelling declared _ =>
    have hall : ∀ word ∈ words, word.2 ≠ .name := by decide
    exact absurd rfl (hall _ declared)
  | name written => exact written

/-- What is parsed from a text is derived from some of its longest lexemes, nested inside the limit. -/
theorem exists_derives_of_parse {source : String} {tokens : List Token} {strict : Bool} {f : Formula}
    (hlex : lex source = .ok tokens) (hparse : parse tokens strict = .ok f) :
    ∃ u : List Token, Derives .loosest u f ∧ NestedWithin nestingLimit u ∧
      ∀ t ∈ u, Legal t.lexeme.toList t.kind := by
  obtain ⟨found, hmunch, rfl⟩ := munch_of_lex hlex
  obtain ⟨u, rest, hsplit, hu, hnest, _⟩ := exists_of_parse (endMarked_append_endMark _ _) hparse
  rw [tokensAhead_append_endMark hmunch.kind_ne_endMark] at hsplit
  refine ⟨u, hu, hnest, fun t ht => hmunch.legal t ?_⟩
  rw [hsplit]
  exact List.mem_append_left rest ht

/-- A formula that was parsed from a text is canonical, with its groups nested inside the limit. -/
theorem canonical_of_parse {source : String} {tokens : List Token} {strict : Bool} {f : Formula}
    (hlex : lex source = .ok tokens) (hparse : parse tokens strict = .ok f) :
    f.Canonical ∧ f.depth ≤ nestingLimit := by
  obtain ⟨u, hu, hnest, hlegal⟩ := exists_derives_of_parse hlex hparse
  have hnames : ∀ name ∈ f.occurrences, IsName name.toList := by
    intro name hname
    obtain ⟨t, ht, hkind, rfl⟩ := hu.exists_name_token hname
    have hname := hlegal t ht
    rw [hkind] at hname
    exact hname.isName
  have hdepth : f.depth < nestingLimit + 1 :=
    hu.nestedBelow_iff.1 (nestedWithin_iff_nestedBelow.1 hnest)
  exact ⟨⟨hu.native, hnames, hu.graded.1⟩, Nat.le_of_lt_succ hdepth⟩

theorem native_of_parse {source : String} {tokens : List Token} {strict : Bool} {f : Formula}
    (hlex : lex source = .ok tokens) (hparse : parse tokens strict = .ok f) : f.Native :=
  (canonical_of_parse hlex hparse).1.native

/-- The canonical text of a canonical formula is parsed to the same formula in both modes. -/
theorem parse_written {f : Formula} (h : f.Canonical) (hdepth : f.depth ≤ nestingLimit) :
    ∃ label tokens, f.label = .ok label ∧ lex label = .ok tokens ∧
      ∀ strict, parse tokens strict = .ok f := by
  obtain ⟨found, hlex, hmark, hshape⟩ := lex_written h.native h.names
  have hparse := parse_strict_of_graded h.graded h.native hdepth hshape hmark
    (String.ofList f.written).length
  refine ⟨_, _, label_eq_written h.native, hlex, fun strict => ?_⟩
  cases strict with
  | true => exact hparse
  | false => exact parse_lenient_of_strict (endMarked_append_endMark found _) hparse

/-- The canonical text of a formula that was parsed from a text is parsed to the same formula. -/
theorem parse_label {source : String} {tokens : List Token} {strict : Bool} {f : Formula}
    (hlex : lex source = .ok tokens) (hparse : parse tokens strict = .ok f) :
    ∃ label labelTokens, f.label = .ok label ∧ lex label = .ok labelTokens ∧
      parse labelTokens true = .ok f := by
  obtain ⟨hcanonical, hdepth⟩ := canonical_of_parse hlex hparse
  obtain ⟨label, labelTokens, hlabel, hlabelLex, hlabelParse⟩ := parse_written hcanonical hdepth
  exact ⟨label, labelTokens, hlabel, hlabelLex, hlabelParse true⟩

/-- **Canonical formulas are those that are read back.**  Every formula without foreign leaves, with its
groups nested inside the limit, has a canonical text, and in either mode this text is parsed to the same
formula exactly if the formula is canonical.  And in either mode the formulas that are parsed from any
text are the canonical ones with their groups nested inside the limit. -/
theorem parse_label_iff_canonical :
    (∀ f : Formula, f.Native → f.depth ≤ nestingLimit →
      ∃ label, f.label = .ok label ∧
        ∀ strict, (∃ tokens, lex label = .ok tokens ∧ parse tokens strict = .ok f) ↔ f.Canonical) ∧
    ∀ (f : Formula) (strict : Bool),
      (∃ source tokens, lex source = .ok tokens ∧ parse tokens strict = .ok f) ↔
        f.Canonical ∧ f.depth ≤ nestingLimit := by
  constructor
  · intro f hnative hdepth
    refine ⟨_, label_eq_written hnative, fun strict => ⟨?_, fun h => ?_⟩⟩
    · rintro ⟨tokens, hlex, hparse⟩
      exact (canonical_of_parse hlex hparse).1
    · obtain ⟨label, tokens, hlabel, hlex, hparse⟩ := parse_written h hdepth
      rw [label_eq_written hnative] at hlabel
      cases hlabel
      exact ⟨tokens, hlex, hparse strict⟩
  · intro f strict
    constructor
    · rintro ⟨source, tokens, hlex, hparse⟩
      exact canonical_of_parse hlex hparse
    · rintro ⟨hcanonical, hdepth⟩
      obtain ⟨label, tokens, _, hlex, hparse⟩ := parse_written hcanonical hdepth
      exact ⟨label, tokens, hlex, hparse strict⟩

/-- A chain of implications that leans to the left is read back, one that leans to the right is not,
and neither is a variable whose name is the text of a conjunction. -/
theorem parse_label_iff_canonical_imp :
    let leftmost : Formula := .binary .imp (.binary .imp (.var "p") (.neg (.var "q1"))) (.var "r")
    let rightmost : Formula := .binary .imp (.var "p") (.binary .imp (.neg (.var "q1")) (.var "r"))
    let conjoined : Formula := .var "p ∧ q"
    (leftmost.label = .ok "p → ¬q1 → r" ∧ rightmost.label = .ok "p → ¬q1 → r") ∧
      (∃ tokens, lex "p → ¬q1 → r" = .ok tokens ∧ parse tokens true = .ok leftmost) ∧
      (¬ ∃ tokens, lex "p → ¬q1 → r" = .ok tokens ∧ parse tokens true = .ok rightmost) ∧
      conjoined.label = .ok "p ∧ q" ∧
      ¬ ∃ source tokens, lex source = .ok tokens ∧ parse tokens false = .ok conjoined := by
  intro leftmost rightmost conjoined
  have hleftmost : leftmost.label = .ok "p → ¬q1 → r" := by decide +kernel
  have hrightmost : rightmost.label = .ok "p → ¬q1 → r" := by decide +kernel
  have hconjoined : conjoined.label = .ok "p ∧ q" := by decide +kernel
  refine ⟨⟨hleftmost, hrightmost⟩, ?_, ?_, hconjoined, ?_⟩
  · obtain ⟨label, hlabel, hread⟩ :=
      parse_label_iff_canonical.1 leftmost (by decide) (by decide)
    rw [hleftmost] at hlabel
    cases hlabel
    exact (hread true).2 (by decide +kernel)
  · obtain ⟨label, hlabel, hread⟩ :=
      parse_label_iff_canonical.1 rightmost (by decide) (by decide)
    rw [hrightmost] at hlabel
    cases hlabel
    rw [hread true]
    decide +kernel
  · rw [parse_label_iff_canonical.2 conjoined false]
    decide +kernel

end Propositional
