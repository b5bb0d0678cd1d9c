import Propositional.Proofs.Formula.Cursor
import Propositional.Proofs.Formula.Printed
import Propositional.Proofs.Table.Bound
import Propositional.Proofs.Token.Stepping
import Propositional.Table.Layout

/-!
# What can come of a text

* `TruthTable.Regular` — a table whose parts fit, so that all of it can be shown;
* `regular_of_table_eq_ok` — the table of a formula is regular;
* `exists_parser_of_lex` — the parser of the tokens of a text, which stays on these tokens;
* `truthTable_outcome` — a text has no table for one of three reasons only, and otherwise a regular one.
-/

namespace Propositional

/-! ### Tables whose parts fit -/

/-- The parts of a table fit: there are as many rows, values and patterns as assignments of the
variables, and everything can be shown. -/
structure TruthTable.Regular (t : TruthTable) : Prop where
  rows : t.rows.length = 2 ^ t.names.length
  values : t.values.length = 2 ^ t.names.length
  patterns : t.patterns.length = 2 ^ t.names.length
  ones : ∃ rows patterns, t.ones = .ok (rows, patterns)
  array : ∃ numbers, t.array = .ok numbers
  format : ∀ trueSymbol falseSymbol,
    (t.format trueSymbol falseSymbol false).length = 2 ^ t.names.length + 1

theorem patterns_length (n : Nat) : (patterns n).length = 2 ^ n := by
  rw [patterns, List.length_map, List.length_range]
  rfl

namespace TruthTable

theorem select_of_length_eq {α : Type} {items : List α} {flags : List Bool}
    (h : flags.length = items.length) : select items flags = .ok (pick items flags) := by
  rw [select, if_pos (by simp [h])]

/-- A table with as many rows and values as assignments is regular. -/
theorem regular_of_length {t : TruthTable} (hrows : t.rows.length = 2 ^ t.names.length)
    (hvalues : t.values.length = 2 ^ t.names.length) : t.Regular where
  rows := hrows
  values := hvalues
  patterns := patterns_length t.names.length
  ones := by
    have hpatterns : t.patterns.length = 2 ^ t.names.length := patterns_length t.names.length
    refine ⟨pick t.rows t.values, pick t.patterns t.values, ?_⟩
    rw [TruthTable.ones, select_of_length_eq (hvalues.trans hrows.symm),
      select_of_length_eq (hvalues.trans hpatterns.symm)]
    rfl
  array := ⟨t.cells, if_pos (hrows.trans hvalues.symm)⟩
  format trueSymbol falseSymbol := by
    have hshown : t.shownRows false = t.rows.zip t.values := List.filter_eq_self.2 fun _ _ => rfl
    rw [TruthTable.format, hshown, List.length_cons, List.length_map, List.length_zip, hrows, hvalues,
      Nat.min_self]

end TruthTable

/-- The table of a formula is regular. -/
theorem regular_of_table_eq_ok {f : Formula} (h : f.Native) {maxVars : Option Int}
    {table : TruthTable} (htable : f.table maxVars = .ok table) : table.Regular := by
  obtain ⟨_, _, hrows, _, _⟩ := table_eq_ok_iff.1 htable
  refine TruthTable.regular_of_length ?_ (isTruthTable_of_table_eq_ok h htable).length
  rw [hrows, bitRows_length]

/-! ### Texts -/

/-- The tokens of a text have a parser.  Whatever steps it takes, the next token is the one at its cursor,
and it has the operators for all nodes that it builds, unless it is asked for a chain without one. -/
theorem exists_parser_of_lex {source : String} {tokens : List Token}
    (h : lex source = .ok tokens) (strict : Bool) :
    ∃ p, Parser.ofTokens tokens = .ok p ∧ (p.run strict).1 = parse tokens strict ∧
      (∀ calls, ∀ step ∈ p.performAll calls, tokens[step.2.cursor]? = some step.2.peek) ∧
      ∀ call e, (p.perform call).1 = .failed (.node e) →
        ∃ kind level, call = .readChain kind level ∧ kind.connective? = none := by
  obtain ⟨stop, hstream⟩ := (endMarked_of_lex h).exists_ofTokens
  have hparser := parser_of_ofTokens hstream
  refine ⟨_, hparser, (parse_of_ofTokens hstream strict).symm, fun calls step hstep => ?_,
    fun call e => Parser.exists_readChain_of_failed_node⟩
  exact ((Parser.standsIn_of_ofTokens hparser).performAll calls step hstep).getElem?_cursor

section Outcomes

variable {source : String} {strict : Bool} {maxVars : Option Int}

/-- A text has no table for one of three reasons only. -/
theorem truthTable_error_cases {e : FormulaError} (h : truthTable source strict maxVars = .error e) :
    (∃ cause, lex source = .error cause ∧ e = .lex cause) ∨
    (∃ tokens cause, lex source = .ok tokens ∧ parse tokens strict = .error cause ∧
      e = .parse cause) ∨
    ∃ tokens f allowed, lex source = .ok tokens ∧ parse tokens strict = .ok f ∧
      maxVars = some allowed ∧ allowed < f.nameCount ∧ e = .tooManyVariables f.nameCount allowed := by
  rcases truthTable_eq_error_iff.1 h with
    ⟨cause, hlex, rfl⟩ | ⟨tokens, cause, hlex, hparse, rfl⟩ | ⟨tokens, f, hlex, hparse, htable⟩
  · exact .inl ⟨cause, hlex, rfl⟩
  · exact .inr (.inl ⟨tokens, cause, hlex, hparse, rfl⟩)
  · have hnative := native_of_parse hlex hparse
    obtain ⟨allowed, hbound, hlt, he⟩ := (table_eq_error_iff_of_native hnative).1 htable
    exact .inr (.inr ⟨tokens, f, allowed, hlex, hparse, hbound, hlt, he⟩)

theorem truthTable_eq_error_lex_iff {e : LexError} :
    truthTable source strict maxVars = .error (.lex e) ↔ lex source = .error e := by
  constructor
  · intro h
    rcases truthTable_error_cases h with
      ⟨cause, hlex, he⟩ | ⟨_, _, _, _, he⟩ | ⟨_, _, _, _, _, _, _, he⟩ <;> cases he
    exact hlex
  · intro h
    exact truthTable_eq_error_iff.2 (.inl ⟨e, h, rfl⟩)

theorem truthTable_eq_error_parse_iff {e : ParseError} :
    truthTable source strict maxVars = .error (.parse e) ↔
      ∃ tokens, lex source = .ok tokens ∧ parse tokens strict = .error e := by
  constructor
  · intro h
    rcases truthTable_error_cases h with
      ⟨_, _, he⟩ | ⟨tokens, cause, hlex, hparse, he⟩ | ⟨_, _, _, _, _, _, _, he⟩ <;> cases he
    exact ⟨tokens, hlex, hparse⟩
  · rintro ⟨tokens, hlex, hparse⟩
    exact truthTable_of_parse_error hlex hparse maxVars

theorem truthTable_eq_error_tooManyVariables_iff {found : Nat} {allowed : Int} :
    truthTable source strict maxVars = .error (.tooManyVariables found allowed) ↔
      ∃ tokens f, lex source = .ok tokens ∧ parse tokens strict = .ok f ∧ maxVars = some allowed ∧
        allowed < f.nameCount ∧ found = f.nameCount := by
  constructor
  · intro h
    rcases truthTable_error_cases h with
      ⟨_, _, he⟩ | ⟨_, _, _, _, he⟩ | ⟨tokens, f, _, hlex, hparse, hbound, hlt, he⟩ <;> cases he
    exact ⟨tokens, f, hlex, hparse, hbound, hlt, rfl⟩
  · rintro ⟨tokens, f, hlex, hparse, hbound, hlt, rfl⟩
    have hnative := native_of_parse hlex hparse
    have htable := (table_eq_error_iff_of_native hnative).2 ⟨allowed, hbound, hlt, rfl⟩
    exact truthTable_eq_error_iff.2 (.inr (.inr ⟨tokens, f, hlex, hparse, htable⟩))

theorem exists_truthTable_iff :
    (∃ table, truthTable source strict maxVars = .ok table) ↔
      ∃ tokens f, lex source = .ok tokens ∧ parse tokens strict = .ok f ∧
        ∀ allowed ∈ maxVars, (f.nameCount : Int) ≤ allowed := by
  constructor
  · rintro ⟨table, h⟩
    obtain ⟨tokens, f, hlex, hparse, htable⟩ := truthTable_eq_ok_iff.1 h
    have hnative := native_of_parse hlex hparse
    exact ⟨tokens, f, hlex, hparse, (exists_table_iff_of_native hnative).1 ⟨table, htable⟩⟩
  · rintro ⟨tokens, f, hlex, hparse, hallowed⟩
    have hnative := native_of_parse hlex hparse
    obtain ⟨table, htable⟩ := (exists_table_iff_of_native hnative).2 hallowed
    exact ⟨table, truthTable_eq_ok_iff.2 ⟨tokens, f, hlex, hparse, htable⟩⟩

theorem truthTable_ne_error_eval (e : EvalError) :
    truthTable source strict maxVars ≠ .error (.eval e) := by
  intro h
  rcases truthTable_error_cases h with
    ⟨_, _, he⟩ | ⟨_, _, _, _, he⟩ | ⟨_, _, _, _, _, _, _, he⟩ <;> cases he

theorem regular_of_truthTable {table : TruthTable}
    (h : truthTable source strict maxVars = .ok table) : table.Regular := by
  obtain ⟨tokens, f, hlex, hparse, htable⟩ := truthTable_eq_ok_iff.1 h
  exact regular_of_table_eq_ok (native_of_parse hlex hparse) htable

/-- Bounds that are kept do not matter. -/
theorem truthTable_unique {maxVars' : Option Int} {table other : TruthTable}
    (h : truthTable source strict maxVars = .ok table)
    (hother : truthTable source strict maxVars' = .ok other) : other = table := by
  obtain ⟨tokens, f, hlex, hparse, htable⟩ := truthTable_eq_ok_iff.1 h
  obtain ⟨tokens', f', hlex', hparse', htable'⟩ := truthTable_eq_ok_iff.1 hother
  cases hlex.symm.trans hlex'
  cases hparse.symm.trans hparse'
  exact table_unique_of_native (native_of_parse hlex hparse) htable htable'

end Outcomes

/-- A step that is reached from the beginning of a text and fails reports an error of the text. -/
theorem error_eq_lex_of_reaches {source : String} {s : Scanner} {e : StepError}
    (hreaches : (Scanner.ofSource source).Reaches s) (hlt : s.cursor < source.length)
    (hstep : s.dispatch = .error e) : ∃ cause, e = .lex cause := by
  have hinside := Scanner.inside_ofSource source
  refine hreaches.error_eq_lex hinside ?_ hstep
  rw [(hreaches.inside hinside).2]
  exact hlt

/-- **What can come of a text.**  It has no table exactly if lexing fails, or else parsing, or else the
formula has more variables than allowed, and this is what is reported.  Otherwise it has a table: a regular
one, and the same under every bound that it keeps.  On the way no other failure is met: every step to
the tokens reports an error of the text if it fails, lexing ends where these steps end, and the parser
keeps to its tokens and has the operators for the nodes of the formula. -/
theorem truthTable_outcome (source : String) (strict : Bool) (maxVars : Option Int) :
    (∀ e, truthTable source strict maxVars = .error (.lex e) ↔ lex source = .error e) ∧
    (∀ e, truthTable source strict maxVars = .error (.parse e) ↔
      ∃ tokens, lex source = .ok tokens ∧ parse tokens strict = .error e) ∧
    (∀ found allowed, truthTable source strict maxVars = .error (.tooManyVariables found allowed) ↔
      ∃ tokens f, lex source = .ok tokens ∧ parse tokens strict = .ok f ∧ maxVars = some allowed ∧
        allowed < f.nameCount ∧ found = f.nameCount) ∧
    ((∃ table, truthTable source strict maxVars = .ok table) ↔
      ∃ tokens f, lex source = .ok tokens ∧ parse tokens strict = .ok f ∧
        ∀ allowed ∈ maxVars, (f.nameCount : Int) ≤ allowed) ∧
    (∀ e, truthTable source strict maxVars ≠ .error (.eval e)) ∧
    (∀ table, truthTable source strict maxVars = .ok table →
      table.Regular ∧
      ∀ maxVars' other, truthTable source strict maxVars' = .ok other → other = table) ∧
    (∀ s e, (Scanner.ofSource source).Reaches s → s.cursor < source.length →
      s.dispatch = .error e → ∃ cause, e = .lex cause) ∧
    (∃ s, (Scanner.ofSource source).Reaches s ∧
      match lex source with
      | .ok tokens =>
        s.cursor = source.length ∧ tokens = s.tokens ++ [Token.endMark source.length]
      | .error e => s.cursor < source.length ∧ s.dispatch = .error (.lex e)) ∧
    ∀ tokens, lex source = .ok tokens →
      ∃ p, Parser.ofTokens tokens = .ok p ∧ (p.run strict).1 = parse tokens strict ∧
        (∀ calls, ∀ step ∈ p.performAll calls, tokens[step.2.cursor]? = some step.2.peek) ∧
        ∀ call e, (p.perform call).1 = .failed (.node e) →
          ∃ kind level, call = .readChain kind level ∧ kind.connective? = none :=
  ⟨fun _ => truthTable_eq_error_lex_iff, fun _ => truthTable_eq_error_parse_iff,
    fun _ _ => truthTable_eq_error_tooManyVariables_iff, exists_truthTable_iff,
    truthTable_ne_error_eval,
    fun _ h => ⟨regular_of_truthTable h, fun _ _ hother => truthTable_unique h hother⟩,
    fun _ _ => error_eq_lex_of_reaches, exists_reaches_lex source,
    fun _ h => exists_parser_of_lex h strict⟩

/-- Two variables are too many for the bound one; under a bound that allows them the table is that without
a bound, and its parts fit. -/
theorem truthTable_outcome_bounded :
    truthTable "p if q1 if p" true (some 1) = .error (.tooManyVariables 2 1) ∧
    ∃ table, truthTable "p if q1 if p" true none = .ok table ∧ table.Regular ∧
      (∀ maxVars other, truthTable "p if q1 if p" true maxVars = .ok other → other = table) ∧
      ∃ tokens p, lex "p if q1 if p" = .ok tokens ∧ Parser.ofTokens tokens = .ok p ∧
        (p.run true).1 = parse tokens true ∧
        ∀ calls, ∀ step ∈ p.performAll calls, tokens[step.2.cursor]? = some step.2.peek := by
  have htable : truthTable "p if q1 if p" true none =
      .ok ⟨["p", "q1"], "p → q1 → p", bitRows 2, [false, false, true, true]⟩ := by decide +kernel
  have hlex : lex "p if q1 if p" = .ok
      [⟨.name, "p", 0⟩, ⟨.connective .imp, "if", 2⟩, ⟨.name, "q1", 5⟩, ⟨.connective .imp, "if", 8⟩,
        ⟨.name, "p", 11⟩, ⟨.endMark, "", 12⟩] := by
    decide +kernel
  have hparse : parse
      [⟨.name, "p", 0⟩, ⟨.connective .imp, "if", 2⟩, ⟨.name, "q1", 5⟩, ⟨.connective .imp, "if", 8⟩,
        ⟨.name, "p", 11⟩, ⟨.endMark, "", 12⟩] true =
      .ok (.binary .imp (.binary .imp (.var "p") (.var "q1")) (.var "p")) := by
    decide +kernel
  obtain ⟨_, _, hexceeded, _⟩ := truthTable_outcome "p if q1 if p" true (some 1)
  obtain ⟨_, _, _, _, _, hregular, _, _, hparser⟩ := truthTable_outcome "p if q1 if p" true none
  obtain ⟨p, hp, hrun, hcursor, _⟩ := hparser _ hlex
  exact ⟨(hexceeded 2 1).2 ⟨_, _, hlex, hparse, rfl, by decide, by decide⟩, _, htable,
    (hregular _ htable).1, (hregular _ htable).2, _, p, hlex, hp, hrun, hcursor⟩

end Propositional
