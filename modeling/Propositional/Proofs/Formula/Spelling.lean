import Propositional.Proofs.Formula.Parsing
import Propositional.Proofs.Formula.Shape

/-!
# The spelling of tokens does not matter

Two token sequences of which the grammar sees the same are read side by side.

* `Twins` — two tokens with the same shape, one of each sequence; `exists_twins` — sequences with the same
  shapes are sequences of twins;
* `ParseError.Matches` — two errors that report corresponding tokens in the same way;
* `ReadAlike` — two readings give the same formula, or errors that match, and leave the same twins;
* `Reader.Alike` — two readers read alike whatever twins they are given; `Level.reader_alike`,
  `readFormula_alike` — the readers of both sequences do;
* `parse_alike` — so parsing gives the same formula, or fails at the same place.
-/

namespace Propositional

/-! ### Twins -/

/-- Two tokens of which the grammar sees the same. -/
structure Twins where
  first : Token
  second : Token
  same : first.shape = second.shape

namespace Twins

theorem kind_eq (p : Twins) : p.second.kind = p.first.kind := (congrArg Prod.fst p.same).symm

theorem lexeme_eq {p : Twins} (h : p.first.kind = .name) : p.second.lexeme = p.first.lexeme := by
  have hname : p.first.shape = (.name, p.first.lexeme) := Token.shape_eq_name_iff.2 ⟨h, rfl⟩
  rw [p.same] at hname
  exact (Token.shape_eq_name_iff.1 hname).2

end Twins

/-- Sequences with the same shapes are sequences of twins. -/
theorem exists_twins {tokens others : List Token}
    (h : tokens.map Token.shape = others.map Token.shape) :
    ∃ pairs : List Twins, pairs.map Twins.first = tokens ∧ pairs.map Twins.second = others := by
  induction tokens generalizing others with
  | nil =>
    rw [List.map_eq_nil_iff.1 h.symm]
    exact ⟨[], rfl, rfl⟩
  | cons t tokens ih =>
    obtain ⟨u, later, rfl, hshape, hlater⟩ := List.map_eq_cons_iff.1 h.symm
    obtain ⟨pairs, rfl, rfl⟩ := ih hlater.symm
    exact ⟨⟨t, u, hshape.symm⟩ :: pairs, rfl, rfl⟩

/-! ### Matching errors -/

/-- Two errors report tokens that correspond to each other, in the same way. -/
inductive ParseError.Matches (corresponds : Token → Token → Prop) : ParseError → ParseError → Prop
  | missingEnd : Matches corresponds ⟨.missingEnd, none⟩ ⟨.missingEnd, none⟩
  | tooDeep {t u : Token} (found : corresponds t u) :
      Matches corresponds ⟨.tooDeep, some t.position⟩ ⟨.tooDeep, some u.position⟩
  | operandExpected {t u : Token} (found : corresponds t u) :
      Matches corresponds ⟨.operandExpected (some t.lexeme), some t.position⟩
        ⟨.operandExpected (some u.lexeme), some u.position⟩
  | operandMissing {t u : Token} (found : corresponds t u) :
      Matches corresponds ⟨.operandExpected none, some t.position⟩
        ⟨.operandExpected none, some u.position⟩
  | unclosed {opening opening' t u : Token} (opens : corresponds opening opening')
      (found : corresponds t u) :
      Matches corresponds ⟨.unclosed opening.position, some t.position⟩
        ⟨.unclosed opening'.position, some u.position⟩
  | trailing {t u : Token} (found : corresponds t u) :
      Matches corresponds ⟨.trailing t.lexeme, some t.position⟩ ⟨.trailing u.lexeme, some u.position⟩

theorem ParseError.Matches.mono {corresponds wider : Token → Token → Prop} {e e' : ParseError}
    (h : e.Matches corresponds e') (hwider : ∀ t u, corresponds t u → wider t u) :
    e.Matches wider e' := by
  cases h with
  | missingEnd => exact .missingEnd
  | tooDeep found => exact .tooDeep (hwider _ _ found)
  | operandExpected found => exact .operandExpected (hwider _ _ found)
  | operandMissing found => exact .operandMissing (hwider _ _ found)
  | unclosed opens found => exact .unclosed (hwider _ _ opens) (hwider _ _ found)
  | trailing found => exact .trailing (hwider _ _ found)

/-- Two tokens are twins of a sequence, or its end marks. -/
def Twinned (ends : Twins) (pairs : List Twins) (t u : Token) : Prop :=
  ∃ p ∈ pairs ++ [ends], p.first = t ∧ p.second = u

theorem Twinned.ends {ends : Twins} {pairs : List Twins} :
    Twinned ends pairs ends.first ends.second :=
  ⟨ends, List.mem_append_right _ List.mem_cons_self, rfl, rfl⟩

theorem Twinned.of_mem {ends p : Twins} {pairs : List Twins} (h : p ∈ pairs) :
    Twinned ends pairs p.first p.second :=
  ⟨p, List.mem_append_left _ h, rfl, rfl⟩

/-- The next tokens of both sequences are twins. -/
theorem Twinned.headD {ends : Twins} (pairs : List Twins) :
    Twinned ends pairs ((pairs.map Twins.first).headD ends.first)
      ((pairs.map Twins.second).headD ends.second) := by
  cases pairs with
  | nil => exact .ends
  | cons p pairs => exact .of_mem List.mem_cons_self

/-! ### Readings side by side -/

/-- Two readings give the same formula, or errors that match, and leave the same twins. -/
inductive ReadAlike (ends : Twins) (pairs : List Twins) : Reading → Reading → Prop
  | ok (f : Formula) {left : List Twins} (rest : left <:+ pairs) :
      ReadAlike ends pairs ⟨.ok f, left.map Twins.first⟩ ⟨.ok f, left.map Twins.second⟩
  | error {e e' : ParseError} {left : List Twins} (rest : left <:+ pairs)
      (matching : e.Matches (Twinned ends pairs) e') :
      ReadAlike ends pairs ⟨.error e, left.map Twins.first⟩ ⟨.error e', left.map Twins.second⟩

namespace ReadAlike

variable {ends : Twins} {pairs : List Twins} {reading reading' : Reading}

/-- What was read from a part may have been read from more. -/
theorem of_suffix {later : List Twins} (h : ReadAlike ends later reading reading')
    (hsuffix : later <:+ pairs) : ReadAlike ends pairs reading reading' := by
  cases h with
  | ok f rest => exact .ok f (rest.trans hsuffix)
  | error rest matching =>
    refine .error (rest.trans hsuffix) (matching.mono ?_)
    rintro t u ⟨p, hp, ht, hu⟩
    refine ⟨p, ?_, ht, hu⟩
    rcases List.mem_append.1 hp with hp | hp
    · exact List.mem_append_left _ (hsuffix.subset hp)
    · exact List.mem_append_right _ hp

/-- What is made of the formula does not matter. -/
theorem map (h : ReadAlike ends pairs reading reading') (g : Formula → Formula) :
    ReadAlike ends pairs { reading with result := reading.result.map g }
      { reading' with result := reading'.result.map g } := by
  cases h with
  | ok f rest => exact .ok (g f) rest
  | error rest matching => exact .error rest matching

end ReadAlike

/-- Two readers read alike, whatever twins they are given. -/
def Reader.Alike (ends : Twins) (reader reader' : Reader) : Prop :=
  ∀ pairs : List Twins,
    ReadAlike ends pairs (reader (pairs.map Twins.first)) (reader' (pairs.map Twins.second))

namespace Reader

variable {ends : Twins} {inside inside' operand operand' reader reader' : Reader} {c : Connective}

/-- Both readers give a formula, or both give an error. -/
theorem Alike.cases (h : Alike ends reader reader') (pairs : List Twins) :
    (∃ f left, left <:+ pairs ∧ reader (pairs.map Twins.first) = ⟨.ok f, left.map Twins.first⟩ ∧
      reader' (pairs.map Twins.second) = ⟨.ok f, left.map Twins.second⟩) ∨
    ∃ e e' left, left <:+ pairs ∧ e.Matches (Twinned ends pairs) e' ∧
      reader (pairs.map Twins.first) = ⟨.error e, left.map Twins.first⟩ ∧
      reader' (pairs.map Twins.second) = ⟨.error e', left.map Twins.second⟩ := by
  have hboth := h pairs
  generalize reader (pairs.map Twins.first) = reading at hboth ⊢
  generalize reader' (pairs.map Twins.second) = reading' at hboth ⊢
  cases hboth with
  | ok f rest => exact .inl ⟨f, _, rest, rfl, rfl⟩
  | error rest matching => exact .inr ⟨_, _, _, rest, matching, rfl, rfl⟩

/-! ### Operands -/

theorem close_alike {pairs left : List Twins} {opening : Twins} (hopening : opening ∈ pairs)
    (hleft : left <:+ pairs) (f : Formula) :
    ReadAlike ends pairs (close ends.first opening.first f (left.map Twins.first))
      (close ends.second opening.second f (left.map Twins.second)) := by
  cases left with
  | nil => exact .error hleft (.unclosed (.of_mem hopening) .ends)
  | cons p left =>
    have hrest : left <:+ pairs := (List.suffix_cons p left).trans hleft
    by_cases hclose : p.first.kind = .closeParen
    · rw [List.map_cons, List.map_cons, close_ok hclose, close_ok (p.kind_eq.trans hclose)]
      exact .ok _ hrest
    · have hother : p.second.kind ≠ .closeParen := by rwa [p.kind_eq]
      rw [List.map_cons, List.map_cons, close, if_neg hclose, close, if_neg hother]
      exact .error hrest (.unclosed (.of_mem hopening) (.of_mem (hleft.subset List.mem_cons_self)))

theorem primary_alike (h : Alike ends inside inside') :
    Alike ends (primary ends.first inside) (primary ends.second inside') := by
  intro pairs
  cases pairs with
  | nil => exact .error (List.suffix_refl []) (.operandMissing .ends)
  | cons p pairs =>
    have hlater : pairs <:+ p :: pairs := List.suffix_cons p pairs
    have hkind := p.kind_eq
    rw [List.map_cons, List.map_cons]
    cases hfirst : p.first.kind with
    | const value =>
      rw [primary_const hfirst, primary_const (hkind.trans hfirst)]
      exact .ok _ hlater
    | name =>
      rw [primary_name hfirst, primary_name (hkind.trans hfirst), Twins.lexeme_eq hfirst]
      exact .ok _ hlater
    | openParen =>
      rcases h.cases pairs with
        ⟨f, left, hleft, hread, hread'⟩ | ⟨e, e', left, hleft, hmatches, hread, hread'⟩
      · rw [primary_group hfirst hread, primary_group (hkind.trans hfirst) hread']
        exact close_alike List.mem_cons_self (hleft.trans hlater) f
      · rw [primary_group_fail hfirst hread, primary_group_fail (hkind.trans hfirst) hread']
        exact (ReadAlike.error hleft hmatches).of_suffix hlater
    | _ =>
      have hother : beginsPrimary p.first.kind = false := by rw [hfirst]; rfl
      rw [primary_other hother, primary_other (by rwa [hkind])]
      exact .error hlater (.operandExpected (.of_mem List.mem_cons_self))

theorem negation_alike (h : Alike ends inside inside') :
    Alike ends (negation ends.first inside) (negation ends.second inside') := by
  intro pairs
  induction pairs with
  | nil => exact .error (List.suffix_refl []) (.operandMissing .ends)
  | cons p pairs ih =>
    by_cases hsign : p.first.kind = .negation
    · rw [List.map_cons, List.map_cons, negation_sign hsign, negation_sign (p.kind_eq.trans hsign)]
      exact (ih.map .neg).of_suffix (List.suffix_cons p pairs)
    · have hother : p.second.kind ≠ .negation := by rwa [p.kind_eq]
      rw [List.map_cons, List.map_cons, negation_of_head hsign, negation_of_head hother]
      exact primary_alike h (p :: pairs)

/-! ### Chains -/

/-- Both chains go on with the same operands. -/
theorem goOn_alike (hshort : operand.Shortens) (hshort' : operand'.Shortens)
    (h : Alike ends operand operand') (left : Formula) :
    Alike ends (goOn c operand left) (goOn c operand' left) := by
  intro pairs
  -- each further operand leaves fewer twins
  induction hn : pairs.length using Nat.strongRecOn generalizing pairs left with
  | ind n ih =>
    cases pairs with
    | nil => exact .ok left (List.suffix_refl [])
    | cons p pairs =>
      have hlater : pairs <:+ p :: pairs := List.suffix_cons p pairs
      rw [List.map_cons, List.map_cons]
      by_cases hsign : p.first.kind = .connective c
      · have hsign' : p.second.kind = .connective c := p.kind_eq.trans hsign
        rcases h.cases pairs with
          ⟨right, rest, hrest, hread, hread'⟩ | ⟨e, e', rest, hrest, hmatches, hread, hread'⟩
        · rw [goOn_step hshort hsign hread, goOn_step hshort' hsign' hread']
          have hless : rest.length < n := by
            rw [← hn, List.length_cons]
            exact Nat.lt_succ_of_le hrest.length_le
          exact (ih _ hless _ rest rfl).of_suffix (hrest.trans hlater)
        · rw [goOn_fail hsign hread, goOn_fail hsign' hread']
          exact (ReadAlike.error hrest hmatches).of_suffix hlater
      · have hother : p.second.kind ≠ .connective c := by rwa [p.kind_eq]
        rw [goOn_stop hsign, goOn_stop hother]
        exact .ok left (List.suffix_refl (p :: pairs))

theorem chain_alike (hshort : operand.Shortens) (hshort' : operand'.Shortens)
    (h : Alike ends operand operand') : Alike ends (chain c operand) (chain c operand') := by
  intro pairs
  rcases h.cases pairs with
    ⟨f, rest, hrest, hread, hread'⟩ | ⟨e, e', rest, hrest, hmatches, hread, hread'⟩
  · rw [chain_ok hread, chain_ok hread']
    exact (goOn_alike hshort hshort' h f rest).of_suffix hrest
  · rw [chain_fail hread, chain_fail hread']
    exact .error hrest hmatches

end Reader

/-! ### Whole formulas -/

theorem Level.reader_alike {ends : Twins} {inside inside' : Reader} (hshort : inside.Shortens)
    (hshort' : inside'.Shortens) (h : Reader.Alike ends inside inside') (level : Level) :
    Reader.Alike ends (level.reader ends.first inside) (level.reader ends.second inside') := by
  induction level using Level.induction with
  | primary => exact Reader.primary_alike h
  | negation _ => exact Reader.negation_alike h
  | binary c ih =>
    rw [reader_binary, reader_binary]
    exact Reader.chain_alike (Level.reader_shortens hshort _) (Level.reader_shortens hshort' _) ih

theorem expression_alike (ends : Twins) (depth : Nat) :
    Reader.Alike ends (expression ends.first depth) (expression ends.second depth) := by
  induction depth with
  | zero => exact fun pairs => .error (List.suffix_refl pairs) (.tooDeep (.headD pairs))
  | succ depth ih =>
    exact Level.reader_alike (expression_shortens _ depth) (expression_shortens _ depth) ih .loosest

theorem readFormula_alike (ends : Twins) (strict : Bool) :
    Reader.Alike ends (readFormula ends.first strict) (readFormula ends.second strict) := by
  intro pairs
  have hread : Reader.Alike ends (Level.loosest.read ends.first) (Level.loosest.read ends.second) :=
    expression_alike ends (nestingLimit + 1)
  simp only [readFormula]
  rcases hread.cases pairs with
    ⟨f, left, hleft, hread, hread'⟩ | ⟨e, e', left, hleft, hmatches, hread, hread'⟩
  · rw [hread, hread']
    cases left with
    | nil => exact .ok f hleft
    | cons p left =>
      cases strict with
      | true => exact .error hleft (.trailing (.of_mem (hleft.subset List.mem_cons_self)))
      | false => exact .ok f hleft
  · rw [hread, hread']
    exact .error hleft hmatches

/-! ### Whole sequences -/

/-- Two tokens stand at the same place of their sequences. -/
def InSamePlace (tokens others : List Token) (t u : Token) : Prop :=
  ∃ place : Nat, tokens[place]? = some t ∧ others[place]? = some u

theorem inSamePlace_of_mem {pairs : List Twins} {p : Twins} (h : p ∈ pairs) :
    InSamePlace (pairs.map Twins.first) (pairs.map Twins.second) p.first p.second := by
  obtain ⟨place, hplace⟩ := List.mem_iff_getElem?.1 h
  exact ⟨place, by rw [List.getElem?_map, hplace]; rfl, by rw [List.getElem?_map, hplace]; rfl⟩

theorem endMarked_iff {tokens : List Token} :
    EndMarked tokens ↔ (tokens.map Token.kind).getLast? = some .endMark := by
  rw [List.getLast?_map, Option.map_eq_some_iff]
  rfl

theorem endMarked_twins_iff {pairs : List Twins} :
    EndMarked (pairs.map Twins.second) ↔ EndMarked (pairs.map Twins.first) := by
  have hkinds : (pairs.map Twins.second).map Token.kind = (pairs.map Twins.first).map Token.kind := by
    simp [Twins.kind_eq]
  rw [endMarked_iff, hkinds, endMarked_iff]

/-- Both sequences are cut at the same end mark, or neither ends with one. -/
theorem ofTokens_twins (pairs : List Twins) :
    (TokenStream.ofTokens (pairs.map Twins.first) = .error ⟨.missingEnd, none⟩ ∧
      TokenStream.ofTokens (pairs.map Twins.second) = .error ⟨.missingEnd, none⟩) ∨
    ∃ ahead ends, ahead ++ [ends] <+: pairs ∧
      TokenStream.ofTokens (pairs.map Twins.first) = .ok ⟨ahead.map Twins.first, ends.first⟩ ∧
      TokenStream.ofTokens (pairs.map Twins.second) = .ok ⟨ahead.map Twins.second, ends.second⟩ := by
  by_cases hend : EndMarked (pairs.map Twins.first)
  · have hend' := endMarked_twins_iff.2 hend
    obtain ⟨stop, later, hsplit, hstop⟩ := hend.exists_append
    obtain ⟨ahead, behind, rfl, hahead, hbehind⟩ := List.map_eq_append_iff.1 hsplit
    obtain ⟨ends, behind, rfl, rfl, rfl⟩ := List.map_eq_cons_iff.1 hbehind
    have hunmarked : ∀ p ∈ ahead, p.first.kind ≠ .endMark := by
      intro p hp
      refine kind_ne_endMark_of_mem_tokensAhead _ (hahead ▸ List.mem_map_of_mem hp)
    refine .inr ⟨ahead, ends, ⟨behind, by simp⟩, ?_, ?_⟩
    · rw [List.map_append, List.map_cons] at hend ⊢
      exact ofTokens_append (by simpa using hunmarked) hstop hend
    · rw [List.map_append, List.map_cons] at hend' ⊢
      refine ofTokens_append ?_ (ends.kind_eq.trans hstop) hend'
      simpa [Twins.kind_eq] using hunmarked
  · have hend' : ¬ EndMarked (pairs.map Twins.second) := mt endMarked_twins_iff.1 hend
    exact .inl ⟨ofTokens_of_not_endMarked hend, ofTokens_of_not_endMarked hend'⟩

/-- **The spelling of tokens does not matter.**  Take two token sequences with the same kinds, and with the
same lexemes where these are names.  In either mode both are parsed to the same formula, or parsing both
fails, with errors that report the tokens at the same places in the same way.  Both have a parser, which
stops at the same place, or neither ends with an end mark. -/
theorem parse_alike {tokens others : List Token}
    (h : tokens.map Token.shape = others.map Token.shape) (strict : Bool) :
    ((∃ f, parse tokens strict = .ok f ∧ parse others strict = .ok f) ∨
      ∃ e e', parse tokens strict = .error e ∧ parse others strict = .error e' ∧
        e.Matches (InSamePlace tokens others) e') ∧
    ((∃ p q, Parser.ofTokens tokens = .ok p ∧ Parser.ofTokens others = .ok q ∧
        (p.run strict).2.cursor = (q.run strict).2.cursor) ∨
      Parser.ofTokens tokens = .error ⟨.missingEnd, none⟩ ∧
        Parser.ofTokens others = .error ⟨.missingEnd, none⟩) := by
  obtain ⟨pairs, rfl, rfl⟩ := exists_twins h
  rcases ofTokens_twins pairs with ⟨hfirst, hsecond⟩ | ⟨ahead, ends, hcut, hfirst, hsecond⟩
  · refine ⟨.inr ⟨_, _, ?_, ?_, .missingEnd⟩, .inr ⟨?_, ?_⟩⟩
    · rw [parse, hfirst]
      rfl
    · rw [parse, hsecond]
      rfl
    · rw [Parser.ofTokens, hfirst]
      rfl
    · rw [Parser.ofTokens, hsecond]
      rfl
  · rw [parse_of_ofTokens hfirst, parse_of_ofTokens hsecond]
    have hplaces : ∀ t u, Twinned ends ahead t u →
        InSamePlace (pairs.map Twins.first) (pairs.map Twins.second) t u := by
      rintro t u ⟨p, hp, rfl, rfl⟩
      exact inSamePlace_of_mem (hcut.subset hp)
    have hcursor : ∀ left : List Twins,
        (readFormula ends.first strict (ahead.map Twins.first)).rest = left.map Twins.first →
        (readFormula ends.second strict (ahead.map Twins.second)).rest = left.map Twins.second →
        (Parser.run strict ⟨0, ahead.map Twins.first, ends.first⟩).2.cursor =
          (Parser.run strict ⟨0, ahead.map Twins.second, ends.second⟩).2.cursor := by
      intro left hrest hrest'
      simp only [Parser.run, Parser.apply, Parser.moveTo, hrest, hrest', List.length_map]
    rcases (readFormula_alike ends strict).cases ahead with
      ⟨f, left, _, hread, hread'⟩ | ⟨e, e', left, _, hmatches, hread, hread'⟩
    · refine ⟨.inl ⟨f, by rw [hread], by rw [hread']⟩,
        .inl ⟨_, _, parser_of_ofTokens hfirst, parser_of_ofTokens hsecond, ?_⟩⟩
      exact hcursor left (by rw [hread]) (by rw [hread'])
    · refine ⟨.inr ⟨e, e', by rw [hread], by rw [hread'], hmatches.mono hplaces⟩,
        .inl ⟨_, _, parser_of_ofTokens hfirst, parser_of_ofTokens hsecond, ?_⟩⟩
      exact hcursor left (by rw [hread]) (by rw [hread'])

end Propositional
