import Mathlib.Control.Monad.Basic
import Propositional.Formula.Parser
import Propositional.Proofs.Formula.Reading

/-!
# Parsing accepts the grammar

* `EndMarked` — a token sequence ends with an end mark; `tokensAhead` — its tokens in front of the
  first one;
* `NoConnectiveAhead` — a tail that no formula goes on with;
* `read_eq_ok_iff` — reading at the loosest level finds the derived part that such a tail follows;
* `parse_eq_ok_iff` — what parsing gives in either mode;
* `parse_lenient_of_strict`, `parse_strict_of_lenient` — what one mode gives where the other one succeeds;
* `parse_eq_ok_iff_derives` — parsing in both modes, the place where it stops, and what it does not
  depend on.
-/

namespace Propositional

/-! ### Token sequences -/

/-- The last token of a sequence is an end mark. -/
def EndMarked (tokens : List Token) : Prop :=
  ∃ mark, tokens.getLast? = some mark ∧ mark.kind = .endMark

/-- The tokens in front of the first end mark. -/
def tokensAhead (tokens : List Token) : List Token := tokens.takeWhile fun t => !t.isEndMark

/-- No connective stands at the head of the tokens. -/
def NoConnectiveAhead (rest : List Token) : Prop := ∀ t ∈ rest.head?, t.kind.connective? = none

theorem noConnectiveAhead_nil : NoConnectiveAhead [] := by
  intro t ht
  cases ht

theorem stops_loosest_iff {rest : List Token} : Stops .loosest rest ↔ NoConnectiveAhead rest := by
  constructor
  · intro h t ht
    cases hkind : t.kind with
    | connective c => exact absurd hkind (h t ht c (by cases c <;> decide))
    | _ => rfl
  · intro h t ht c _ hkind
    have := h t ht
    rw [hkind] at this
    cases this

theorem tokensAhead_append {w later : List Token} {stop : Token}
    (hw : ∀ t ∈ w, t.kind ≠ .endMark) (hstop : stop.kind = .endMark) :
    tokensAhead (w ++ stop :: later) = w := by
  have hall : ∀ t ∈ w, (!t.isEndMark) = true := by
    intro t ht
    simpa [Token.isEndMark] using hw t ht
  rw [tokensAhead, List.takeWhile_append_of_pos hall]
  simp [Token.isEndMark, hstop]

/-- A sequence is cut at its first end mark. -/
theorem ofTokens_append {w later : List Token} {stop : Token} (hw : ∀ t ∈ w, t.kind ≠ .endMark)
    (hstop : stop.kind = .endMark) (hend : EndMarked (w ++ stop :: later)) :
    TokenStream.ofTokens (w ++ stop :: later) = .ok ⟨w, stop⟩ := by
  obtain ⟨mark, hlast, hmark⟩ := hend
  have hall : ∀ t ∈ w, (!t.isEndMark) = true := by
    intro t ht
    simpa [Token.isEndMark] using hw t ht
  have hdrop : (w ++ stop :: later).dropWhile (fun t => !t.isEndMark) = stop :: later := by
    rw [List.dropWhile_append_of_pos hall]
    simp [Token.isEndMark, hstop]
  have htake : tokensAhead (w ++ stop :: later) = w := tokensAhead_append hw hstop
  rw [tokensAhead] at htake
  rw [TokenStream.ofTokens, hlast, hdrop, htake, Option.map_some, Token.isEndMark, hmark]
  rfl

/-- The first token is the next one in front of the end mark, or the mark. -/
theorem head?_append_stop (ahead later : List Token) (stop : Token) :
    (ahead ++ stop :: later).head? = some (ahead.headD stop) := by
  cases ahead <;> rfl

/-- What stands in front does not matter. -/
theorem EndMarked.append_left {tokens : List Token} (h : EndMarked tokens) (before : List Token) :
    EndMarked (before ++ tokens) := by
  obtain ⟨mark, hlast, hmark⟩ := h
  refine ⟨mark, ?_, hmark⟩
  rw [List.getLast?_append, hlast]
  rfl

/-- A sequence with an end mark at its end has a first end mark. -/
theorem EndMarked.exists_append {tokens : List Token} (h : EndMarked tokens) :
    ∃ stop later, tokens = tokensAhead tokens ++ stop :: later ∧ stop.kind = .endMark := by
  obtain ⟨mark, hlast, hmark⟩ := h
  have hsplit : tokensAhead tokens ++ tokens.dropWhile (fun t => !t.isEndMark) = tokens :=
    List.takeWhile_append_dropWhile
  cases hdrop : tokens.dropWhile (fun t => !t.isEndMark) with
  | nil =>
    rw [hdrop, List.append_nil] at hsplit
    have hmem : mark ∈ tokensAhead tokens := by
      rw [hsplit]
      exact List.mem_of_getLast? hlast
    have := List.all_eq_true.1 List.all_takeWhile mark hmem
    simp [Token.isEndMark, hmark] at this
  | cons stop later =>
    have hstop := List.head?_dropWhile_not (fun t => !t.isEndMark) tokens
    rw [hdrop] at hsplit hstop
    exact ⟨stop, later, hsplit.symm, by simpa [Token.isEndMark] using hstop⟩

theorem kind_ne_endMark_of_mem_tokensAhead {tokens : List Token} :
    ∀ t ∈ tokensAhead tokens, t.kind ≠ .endMark := by
  intro t ht
  have := List.all_eq_true.1 List.all_takeWhile t ht
  simpa [Token.isEndMark] using this

/-- A sequence with an end mark at its end is cut at its first end mark. -/
theorem EndMarked.exists_stream {tokens : List Token} (h : EndMarked tokens) :
    ∃ stop later, tokens = tokensAhead tokens ++ stop :: later ∧ stop.kind = .endMark ∧
      TokenStream.ofTokens tokens = .ok ⟨tokensAhead tokens, stop⟩ := by
  obtain ⟨stop, later, htokens, hstop⟩ := h.exists_append
  have hread := ofTokens_append kind_ne_endMark_of_mem_tokensAhead hstop (htokens ▸ h)
  rw [← htokens] at hread
  exact ⟨stop, later, htokens, hstop, hread⟩

theorem EndMarked.exists_ofTokens {tokens : List Token} (h : EndMarked tokens) :
    ∃ stop, TokenStream.ofTokens tokens = .ok ⟨tokensAhead tokens, stop⟩ := by
  obtain ⟨stop, _, _, _, hread⟩ := h.exists_stream
  exact ⟨stop, hread⟩

/-- A sequence without an end mark at its end is not cut at all. -/
theorem ofTokens_of_not_endMarked {tokens : List Token} (h : ¬ EndMarked tokens) :
    TokenStream.ofTokens tokens = .error ⟨.missingEnd, none⟩ := by
  unfold TokenStream.ofTokens
  split
  · rename_i hlast _
    obtain ⟨mark, hmark, hkind⟩ := Option.map_eq_some_iff.1 hlast
    exact absurd ⟨mark, hmark, by simpa [Token.isEndMark] using hkind⟩ h
  · rfl

/-- Only the tokens up to the first end mark are seen. -/
theorem ofTokens_congr {tokens others : List Token} (h : EndMarked tokens)
    (hothers : EndMarked others)
    (heq : others.take ((tokensAhead tokens).length + 1) =
      tokens.take ((tokensAhead tokens).length + 1)) :
    TokenStream.ofTokens others = TokenStream.ofTokens tokens := by
  obtain ⟨stop, later, htokens, hstop⟩ := h.exists_append
  have hw : ∀ t ∈ tokensAhead tokens, t.kind ≠ .endMark := kind_ne_endMark_of_mem_tokensAhead
  generalize tokensAhead tokens = w at htokens hw heq
  subst htokens
  have htake : (w ++ stop :: later).take (w.length + 1) = w ++ [stop] := by
    rw [List.take_length_add_append]
    rfl
  have hsplit : others = w ++ stop :: others.drop (w.length + 1) := by
    have hall := List.take_append_drop (w.length + 1) others
    rw [heq, htake, List.append_assoc] at hall
    exact hall.symm
  rw [hsplit] at hothers ⊢
  rw [ofTokens_append hw hstop hothers, ofTokens_append hw hstop h]

/-! ### Whole formulas -/

/-- What is read at the loosest level is a derived part, nested inside the limit, behind which the
formula does not go on. -/
theorem exists_of_read {stop : Token} {w rest : List Token} {f : Formula}
    (h : Level.loosest.read stop w = ⟨.ok f, rest⟩) :
    ∃ u, w = u ++ rest ∧ Derives .loosest u f ∧ NestedWithin nestingLimit u ∧
      NoConnectiveAhead rest := by
  have hsound : (Level.loosest.read stop).Sound .loosest (nestingLimit + 1) :=
    Level.reader_sound (expression_shortens stop nestingLimit) (expression_sound stop nestingLimit)
      .loosest
  obtain ⟨u, hw, hu, hnest, hstops⟩ := hsound w f rest h
  exact ⟨u, hw, hu, nestedWithin_iff_nestedBelow.2 hnest, stops_loosest_iff.1 hstops⟩

/-- Reading at the loosest level finds the derived part behind which the formula does not go on. -/
theorem read_eq_ok_iff {stop : Token} {w rest : List Token} {f : Formula}
    (hnest : NestedWithin nestingLimit w) :
    Level.loosest.read stop w = ⟨.ok f, rest⟩ ↔
      ∃ u, w = u ++ rest ∧ Derives .loosest u f ∧ NoConnectiveAhead rest := by
  constructor
  · intro h
    obtain ⟨u, hw, hu, _, hrest⟩ := exists_of_read h
    exact ⟨u, hw, hu, hrest⟩
  · rintro ⟨u, rfl, hu, hrest⟩
    have hbelow := (nestedWithin_iff_nestedBelow.1 hnest).of_append_left
    exact hu.reader_append stop hbelow (stops_loosest_iff.2 hrest)

theorem readFormula_lenient (stop : Token) (ts : List Token) :
    readFormula stop false ts = Level.loosest.read stop ts := by
  unfold readFormula
  split
  · rename_i f t rest heq
    rw [heq]
    rfl
  · rfl

theorem readFormula_strict_ok_iff {stop : Token} {ts rest : List Token} {f : Formula} :
    readFormula stop true ts = ⟨.ok f, rest⟩ ↔
      Level.loosest.read stop ts = ⟨.ok f, []⟩ ∧ rest = [] := by
  unfold readFormula
  rcases heq : Level.loosest.read stop ts with ⟨_ | g, _ | ⟨t, later⟩⟩
  · simp
  · simp
  · simp [eq_comm]
  · simp

theorem result_eq_ok_iff {reading : Reading} {f : Formula} :
    reading.result = .ok f ↔ ∃ rest, reading = ⟨.ok f, rest⟩ := by
  constructor
  · rintro h
    exact ⟨reading.rest, by rw [← h]⟩
  · rintro ⟨rest, rfl⟩
    rfl

theorem parse_of_ofTokens {tokens w : List Token} {stop : Token}
    (h : TokenStream.ofTokens tokens = .ok ⟨w, stop⟩) (strict : Bool) :
    parse tokens strict = (readFormula stop strict w).result := by
  rw [parse, h]
  rfl

theorem parser_of_ofTokens {tokens w : List Token} {stop : Token}
    (h : TokenStream.ofTokens tokens = .ok ⟨w, stop⟩) :
    Parser.ofTokens tokens = .ok ⟨0, w, stop⟩ := by
  rw [Parser.ofTokens, h]
  rfl

/-- What is read as a whole formula, in either mode, is a derived part behind which the formula does not
go on. -/
theorem exists_of_readFormula {stop : Token} {strict : Bool} {w rest : List Token} {f : Formula}
    (h : readFormula stop strict w = ⟨.ok f, rest⟩) :
    ∃ u, w = u ++ rest ∧ Derives .loosest u f ∧ NestedWithin nestingLimit u ∧
      NoConnectiveAhead rest := by
  cases strict with
  | false =>
    rw [readFormula_lenient] at h
    exact exists_of_read h
  | true =>
    obtain ⟨hread, rfl⟩ := readFormula_strict_ok_iff.1 h
    exact exists_of_read hread

/-- Parsing in either mode gives the formula of a part that is not nested too deep and behind which no
connective stands; in strict mode nothing may stand there. -/
theorem parse_eq_ok_iff {tokens : List Token} {strict : Bool} {f : Formula} (hend : EndMarked tokens) :
    parse tokens strict = .ok f ↔ ∃ u rest, tokensAhead tokens = u ++ rest ∧ Derives .loosest u f ∧
      NestedWithin nestingLimit u ∧ NoConnectiveAhead rest ∧ (strict = true → rest = []) := by
  obtain ⟨stop, hstream⟩ := hend.exists_ofTokens
  rw [parse_of_ofTokens hstream, result_eq_ok_iff]
  constructor
  · rintro ⟨rest, hread⟩
    obtain ⟨u, hsplit, hu, hnest, hrest⟩ := exists_of_readFormula hread
    refine ⟨u, rest, hsplit, hu, hnest, hrest, ?_⟩
    rintro rfl
    exact (readFormula_strict_ok_iff.1 hread).2
  · rintro ⟨u, rest, hsplit, hu, hnest, hrest, hstrict⟩
    have hread : Level.loosest.read stop (u ++ rest) = ⟨.ok f, rest⟩ :=
      hu.reader_append stop (nestedWithin_iff_nestedBelow.1 hnest) (stops_loosest_iff.2 hrest)
    rw [hsplit]
    cases strict with
    | false => exact ⟨rest, by rw [readFormula_lenient, hread]⟩
    | true =>
      have hnil := hstrict rfl
      subst hnil
      exact ⟨[], readFormula_strict_ok_iff.2 ⟨hread, rfl⟩⟩

/-- What is parsed is derived from a part of the tokens, nested inside the limit. -/
theorem exists_of_parse {tokens : List Token} {strict : Bool} {f : Formula}
    (hend : EndMarked tokens) (h : parse tokens strict = .ok f) :
    ∃ u rest, tokensAhead tokens = u ++ rest ∧ Derives .loosest u f ∧
      NestedWithin nestingLimit u ∧ NoConnectiveAhead rest := by
  obtain ⟨u, rest, hsplit, hu, hnest, hrest, _⟩ := (parse_eq_ok_iff hend).1 h
  exact ⟨u, rest, hsplit, hu, hnest, hrest⟩

/-- What is parsed strictly is derived from all tokens in front of the first end mark, nested inside the
limit. -/
theorem derives_of_parse_strict {tokens : List Token} {f : Formula} (hend : EndMarked tokens)
    (h : parse tokens true = .ok f) :
    Derives .loosest (tokensAhead tokens) f ∧ NestedWithin nestingLimit (tokensAhead tokens) := by
  obtain ⟨u, rest, hsplit, hu, hnest, _, hstrict⟩ := (parse_eq_ok_iff hend).1 h
  rw [hstrict rfl, List.append_nil] at hsplit
  rw [hsplit]
  exact ⟨hu, hnest⟩

/-- Strict parsing accepts what the grammar derives. -/
theorem parse_strict_iff {tokens : List Token} (hend : EndMarked tokens)
    (hnest : NestedWithin nestingLimit (tokensAhead tokens)) {f : Formula} :
    parse tokens true = .ok f ↔ Derives .loosest (tokensAhead tokens) f := by
  constructor
  · intro h
    exact (derives_of_parse_strict hend h).1
  · intro h
    exact (parse_eq_ok_iff hend).2
      ⟨_, [], (List.append_nil _).symm, h, hnest, noConnectiveAhead_nil, fun _ => rfl⟩

/-- Lenient parsing reads a derived part that no connective follows. -/
theorem parse_lenient_iff {tokens : List Token} (hend : EndMarked tokens)
    (hnest : NestedWithin nestingLimit (tokensAhead tokens)) {f : Formula} :
    parse tokens false = .ok f ↔
      ∃ u rest, tokensAhead tokens = u ++ rest ∧ Derives .loosest u f ∧ NoConnectiveAhead rest := by
  constructor
  · intro h
    obtain ⟨u, rest, hsplit, hu, _, hrest⟩ := exists_of_parse hend h
    exact ⟨u, rest, hsplit, hu, hrest⟩
  · rintro ⟨u, rest, hsplit, hu, hrest⟩
    rw [hsplit, nestedWithin_iff_nestedBelow] at hnest
    exact (parse_eq_ok_iff hend).2
      ⟨u, rest, hsplit, hu, nestedWithin_iff_nestedBelow.2 hnest.of_append_left, hrest, by simp⟩

/-- What is parsed strictly is parsed leniently to the same formula. -/
theorem parse_lenient_of_strict {tokens : List Token} {f : Formula} (hend : EndMarked tokens)
    (h : parse tokens true = .ok f) : parse tokens false = .ok f := by
  obtain ⟨stop, hstream⟩ := hend.exists_ofTokens
  rw [parse_of_ofTokens hstream, result_eq_ok_iff] at h ⊢
  obtain ⟨_, hread⟩ := h
  refine ⟨[], ?_⟩
  rw [readFormula_lenient]
  exact (readFormula_strict_ok_iff.1 hread).1

/-- What is parsed leniently is parsed strictly to the same formula, unless tokens are left behind it.
Then the first of them is reported, and the tokens in front of it write the formula. -/
theorem parse_strict_of_lenient {tokens : List Token} {f : Formula} (hend : EndMarked tokens)
    (h : parse tokens false = .ok f) :
    parse tokens true = .ok f ∨
    ∃ u t later, tokensAhead tokens = u ++ t :: later ∧ Derives .loosest u f ∧
      NestedWithin nestingLimit u ∧
      parse tokens true = .error ⟨.trailing t.lexeme, some t.position⟩ := by
  obtain ⟨stop, hstream⟩ := hend.exists_ofTokens
  simp only [parse_of_ofTokens hstream] at h ⊢
  rw [readFormula_lenient, result_eq_ok_iff] at h
  obtain ⟨rest, hread⟩ := h
  cases rest with
  | nil => exact .inl (by simp only [readFormula, hread])
  | cons t later =>
    obtain ⟨u, hsplit, hu, hnest, _⟩ := exists_of_read hread
    exact .inr ⟨u, t, later, hsplit, hu, hnest, by simp [readFormula, hread]⟩

/-- A parser that reads leniently stops behind the derived part. -/
theorem run_lenient_cursor {tokens u rest : List Token} {f : Formula} (hend : EndMarked tokens)
    (hnest : NestedWithin nestingLimit (tokensAhead tokens))
    (hsplit : tokensAhead tokens = u ++ rest) (hu : Derives .loosest u f)
    (hrest : NoConnectiveAhead rest) :
    ∃ p q, Parser.ofTokens tokens = .ok p ∧ p.run false = (.ok f, q) ∧ q.cursor = u.length := by
  obtain ⟨stop, hstream⟩ := hend.exists_ofTokens
  have hread : Level.loosest.read stop (tokensAhead tokens) = ⟨.ok f, rest⟩ :=
    (read_eq_ok_iff hnest).2 ⟨u, hsplit, hu, hrest⟩
  have hrun : Parser.run false ⟨0, tokensAhead tokens, stop⟩ =
      (.ok f, Parser.moveTo rest ⟨0, tokensAhead tokens, stop⟩) := by
    rw [Parser.run, Parser.apply]
    simp only [readFormula_lenient, hread]
  refine ⟨_, _, parser_of_ofTokens hstream, hrun, ?_⟩
  show 0 + ((tokensAhead tokens).length - rest.length) = u.length
  rw [hsplit, List.length_append]
  omega

/-- **Parsing accepts the grammar.**  With the nesting inside the limit, strict parsing gives exactly
the formula that the tokens in front of the first end mark write, and there is at most one.  Lenient
parsing gives the formula of a part behind which no connective stands, there is at most one such part,
and the parser stops behind it.  What stands behind the first end mark is not seen. -/
theorem parse_eq_ok_iff_derives {tokens : List Token} (hend : EndMarked tokens)
    (hnest : NestedWithin nestingLimit (tokensAhead tokens)) :
    (∀ f, parse tokens true = .ok f ↔ Derives .loosest (tokensAhead tokens) f) ∧
    (∀ f g, Derives .loosest (tokensAhead tokens) f → Derives .loosest (tokensAhead tokens) g →
      f = g) ∧
    (∀ f, parse tokens false = .ok f ↔ ∃ u rest, tokensAhead tokens = u ++ rest ∧
      Derives .loosest u f ∧ NoConnectiveAhead rest) ∧
    (∀ u rest f u' rest' f', tokensAhead tokens = u ++ rest → Derives .loosest u f →
      NoConnectiveAhead rest → tokensAhead tokens = u' ++ rest' → Derives .loosest u' f' →
      NoConnectiveAhead rest' → u = u' ∧ rest = rest' ∧ f = f') ∧
    (∀ u rest f, tokensAhead tokens = u ++ rest → Derives .loosest u f → NoConnectiveAhead rest →
      ∃ p q, Parser.ofTokens tokens = .ok p ∧ p.run false = (.ok f, q) ∧ q.cursor = u.length) ∧
    (∀ others, EndMarked others →
      others.take ((tokensAhead tokens).length + 1) =
        tokens.take ((tokensAhead tokens).length + 1) →
      Parser.ofTokens others = Parser.ofTokens tokens ∧
        ∀ strict, parse others strict = parse tokens strict) := by
  refine ⟨fun f => parse_strict_iff hend hnest, fun f g => Derives.unique,
    fun f => parse_lenient_iff hend hnest, ?_, ?_, ?_⟩
  · intro u rest f u' rest' f' hsplit hu hrest hsplit' hu' hrest'
    exact hu.split_unique (stops_loosest_iff.2 hrest) hu' (stops_loosest_iff.2 hrest')
      (hsplit.symm.trans hsplit')
  · intro u rest f hsplit hu hrest
    exact run_lenient_cursor hend hnest hsplit hu hrest
  · intro others hothers heq
    have hstream := ofTokens_congr hend hothers heq
    constructor
    · rw [Parser.ofTokens, Parser.ofTokens, hstream]
    · intro strict
      rw [parse, parse, hstream]

/-- Implications fold to the left, lenient parsing stops at the parenthesis, and the second half is not
seen. -/
theorem parse_imp_chain_derives :
    ∃ tokens : List Token,
      tokens.map Token.kind = [.name, .connective .imp, .name, .connective .imp, .name, .closeParen,
        .connective .conj, .endMark, .name, .endMark] ∧
      EndMarked tokens ∧ NestedWithin nestingLimit (tokensAhead tokens) ∧
      parse tokens false = .ok (.binary .imp (.binary .imp (.var "p") (.var "q")) (.var "r")) ∧
      ∃ u rest, tokensAhead tokens = u ++ rest ∧
        Derives .loosest u (.binary .imp (.binary .imp (.var "p") (.var "q")) (.var "r")) ∧
        NoConnectiveAhead rest := by
  let tokens : List Token :=
    [⟨.name, "p", 0⟩, ⟨.connective .imp, "->", 1⟩, ⟨.name, "q", 3⟩, ⟨.connective .imp, "if", 4⟩,
      ⟨.name, "r", 6⟩, ⟨.closeParen, ")", 7⟩, ⟨.connective .conj, "&", 8⟩, ⟨.endMark, "", 9⟩,
      ⟨.name, "x", 9⟩, ⟨.endMark, "", 10⟩]
  have hend : EndMarked tokens := ⟨⟨.endMark, "", 10⟩, rfl, rfl⟩
  have hnest : NestedWithin nestingLimit (tokensAhead tokens) :=
    nestedWithin_iff_nestedBelow.2 (NestedBelow.of_length_lt (by decide))
  have hparse : parse tokens false =
      .ok (.binary .imp (.binary .imp (.var "p") (.var "q")) (.var "r")) := by decide +kernel
  exact ⟨tokens, rfl, hend, hnest, hparse, ((parse_eq_ok_iff_derives hend hnest).2.2.1 _).1 hparse⟩

end Propositional
