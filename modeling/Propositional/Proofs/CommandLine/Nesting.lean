import Propositional.Proofs.CommandLine.Response
import Propositional.Proofs.Formula.Nesting
import Propositional.Proofs.Table.Outcome

/-!
# What is reported for texts that are nested too deep

* `Text.isBlank_of_isBlankText` — a text that counts as blank consists of blanks;
  `not_isBlankText_of_lex` — a text with an opening parenthesis does not;
* `Reports` — wherever a text is given as a formula, an error is what is reported for it;
  `reports_of_error` — it is enough that the text has no table for this error under any bound;
* `tooDeep_of_parens` — only parentheses are nested too deep, and then this is reported.
-/

namespace Propositional

/-! ### Texts that are not blank -/

namespace Text

theorem isBlank_of_isBlankText {text : List Char} (h : isBlankText text = true) :
    ∀ c ∈ text, isBlank c = true := by
  have hstrip : ((text.dropWhile isBlank).reverse.dropWhile isBlank).reverse = [] :=
    List.isEmpty_iff.1 h
  rw [List.reverse_eq_nil_iff, List.dropWhile_eq_nil_iff] at hstrip
  intro c hc
  rw [← List.takeWhile_append_dropWhile (p := isBlank) (l := text)] at hc
  rcases List.mem_append.1 hc with hlead | hlater
  · exact List.all_eq_true.1 List.all_takeWhile c hlead
  · exact hstrip c (List.mem_reverse.2 hlater)

end Text

theorem Legal.eq_of_openParen {lexeme : List Char} (h : Legal lexeme .openParen) : lexeme = ['('] := by
  cases h with
  | sign spelling declared written =>
    have hall : ∀ sign ∈ signs, sign.2 = .openParen → sign.1 = "(" := by decide
    have hspelling : spelling = "(" := hall _ declared rfl
    rw [written, hspelling]
    rfl
  | word spelling declared _ =>
    have hall : ∀ word ∈ words, word.2 ≠ .openParen := by decide
    exact absurd rfl (hall _ declared)

/-- A text with an opening parenthesis is not blank. -/
theorem not_isBlankText_of_lex {source : String} {tokens : List Token} {t : Token}
    (h : lex source = .ok tokens) (ht : t ∈ tokens) (hopen : t.kind = .openParen) :
    Text.isBlankText source.toList = false := by
  obtain ⟨found, hmunch, rfl⟩ := munch_of_lex h
  have hfound : t ∈ found := by
    rcases List.mem_append.1 ht with hfound | hmark
    · exact hfound
    · rw [List.mem_singleton.1 hmark] at hopen
      cases hopen
  obtain ⟨u, later, rfl⟩ := List.append_of_mem hfound
  obtain ⟨before, lexeme, behind, hsource, _, hlongest, _⟩ := hmunch.split
  rw [hopen] at hlongest
  have hmem : '(' ∈ source.toList := by
    rw [hsource, hlongest.legal.eq_of_openParen]
    simp
  by_contra hblank
  have hparen := Text.isBlank_of_isBlankText (by simpa using hblank) '(' hmem
  exact absurd hparen (by decide)

namespace CommandLine

open Settings (nonblank)

/-! ### What is reported -/

/-- An error is what is reported for a text, wherever this is given as a formula: it has no table for this
error, under no bound.  And where it stands among the formulas of the arguments and of the file, its line in
the output is the one of the error, and the exit code is one, unless there is no output at all for want of
a bound. -/
def Reports (source : String) (strict : Bool) (e : FormulaError) : Prop :=
  (∀ maxVars, truthTable source strict maxVars = .error e) ∧
  ∀ (files : Files) arguments s fromFile, readArguments arguments = .ok s → s.strict = strict →
    files.supplied s = .ok fromFile →
    ∀ before after, nonblank (s.formulas ++ fromFile) = before ++ source :: after →
      (∃ formula ∈ before ++ after, s.Uncompared formula) ∧ files.respond arguments = .error .noBound ∨
      ∃ response blocks, files.respond arguments = .ok response ∧ response.exitCode = 1 ∧
        response.output = String.join blocks ∧ blocks.length = before.length + 1 + after.length ∧
        blocks[before.length]? = some (source ++ ": " ++ e.text ++ "\n")

/-- A formula without a table is not compared with a bound. -/
theorem not_uncompared_of_error {s : Settings} {source : String} {e : FormulaError}
    (h : truthTable source s.strict none = .error e) : ¬ s.Uncompared source := by
  rintro ⟨_, f, hf⟩
  obtain ⟨tokens, hlex, hparse⟩ := readText_eq_ok_iff.1 hf
  obtain ⟨table, htable⟩ : ∃ table, truthTable source s.strict none = .ok table :=
    exists_truthTable_iff.2 ⟨tokens, f, hlex, hparse, by simp⟩
  rw [htable] at h
  cases h

theorem reports_of_error {source : String} {strict : Bool} {e : FormulaError}
    (h : ∀ maxVars, truthTable source strict maxVars = .error e) : Reports source strict e := by
  refine ⟨h, ?_⟩
  rintro files arguments s fromFile harguments rfl hfile before after hsplit
  rw [respond_eq_report harguments hfile]
  by_cases hbound : ∃ formula ∈ nonblank (s.formulas ++ fromFile), s.Uncompared formula
  · refine .inl ⟨?_, Settings.report_eq_error hbound⟩
    obtain ⟨formula, hmem, hformula⟩ := hbound
    refine ⟨formula, ?_, hformula⟩
    rw [hsplit, List.mem_append, List.mem_cons] at hmem
    rcases hmem with hmem | rfl | hmem
    · exact List.mem_append_left after hmem
    · exact absurd hformula (not_uncompared_of_error (h none))
    · exact List.mem_append_right before hmem
  have hall : ∀ formula ∈ nonblank (s.formulas ++ fromFile), ¬ s.Uncompared formula :=
    fun formula hmem hformula => hbound ⟨formula, hmem, hformula⟩
  have hblock : s.shownBlock source = .failure (source ++ ": " ++ e.text) := by
    simp only [Settings.shownBlock, h]
  have htabled : s.tabled source = false := by
    rw [Settings.tabled, h]
    rfl
  refine .inr ⟨_, _, Settings.report_eq_ok hall, ?_, unlines_blockLines [] _, ?_, ?_⟩
  · have hnot : ¬ (nonblank (s.formulas ++ fromFile)).all s.tabled = true := by
      rw [hsplit]
      simp [htabled]
    exact (Settings.exitCode_shownBlocks s _).trans (if_neg hnot)
  · rw [hsplit]
    simp only [List.length_mapIdx, List.length_map, List.length_append, List.length_cons]
    omega
  · rw [hsplit, List.getElem?_mapIdx]
    simp [Block.gap, hblock, Block.isTable, Block.isFailure, Block.text]

/-- The line that reports too deep nesting. -/
theorem text_of_tooDeep (position : Int) : (FormulaError.parse ⟨.tooDeep, some position⟩).text =
    "Parser error at position " ++ toString position ++ ": Formula nested too deeply" := by
  show "Parser error at position " ++ toString position ++ ": " ++ "Formula nested too deeply" = _
  exact String.append_assoc

/-- Of viable tokens with so many parentheses open at their end some are left behind the first place that is
too deep. -/
theorem exists_token_of_deep {u : List Token} (hviable : Viable (u.map Token.kind))
    (hopen : closeCount u + 299 ≤ openCount u) :
    ∃ v t later, u = v ++ t :: later ∧ Viable (v.map Token.kind) ∧ Plunges nestingLimit v := by
  have hlimit : nestingLimit = 89 := rfl
  have hdeep : closeCount u + nestingLimit < openCount u := by omega
  obtain ⟨v, ⟨behind, rfl⟩, hbefore, hplunges⟩ := exists_plunges_of_viable hviable hdeep
  cases behind with
  | nil =>
    rw [List.append_nil] at hopen
    have hcount := hplunges.openCount_le
    omega
  | cons t later => exact ⟨v, t, later, rfl, hbefore, hplunges⟩

/-- **Only parentheses are nested too deep.**  Reading with any limit gives up for the depth exactly if
tokens with which a sentence may begin leave more parentheses open than the limit allows, and it does so at
the first place where they do, with the position of the next token.  So with at most sixty open at any place
in front of the first end mark no parse does, however long the chains and the runs of negations are.  And
with three hundred but one open, or more, at the end of tokens with which a sentence may begin, every parse
does, at the same token, whatever stands behind them, and this is what is reported for a text with such
tokens, in either mode.  What cannot be lexed anywhere in a text is reported first. -/
theorem tooDeep_of_parens :
    (∀ limit stop ts, (∃ position, (expression stop (limit + 1) ts).result = .error ⟨.tooDeep, position⟩) ↔
      ∃ u, u <+: ts ∧ Viable (u.map Token.kind) ∧ closeCount u + limit < openCount u) ∧
    (∀ limit stop u rest, Viable (u.map Token.kind) → Plunges limit u →
      expression stop (limit + 1) (u ++ rest) =
        ⟨.error ⟨.tooDeep, some (rest.headD stop).position⟩, rest⟩) ∧
    (∀ tokens, EndMarked tokens → NestedWithin 60 (tokensAhead tokens) → ∀ strict e,
      parse tokens strict = .error e → e.fault.message ≠ "Formula nested too deeply") ∧
    (∀ u, Viable (u.map Token.kind) → closeCount u + 299 ≤ openCount u →
      ∃ v t later, u = v ++ t :: later ∧ Plunges nestingLimit v ∧ ∀ rest strict,
        (EndMarked rest → parse (u ++ rest) strict = .error ⟨.tooDeep, some t.position⟩) ∧
        ∀ source, lex source = .ok (u ++ rest) →
          Text.isBlankText source.toList = false ∧
          Reports source strict (.parse ⟨.tooDeep, some t.position⟩)) ∧
    (∀ position, (FormulaError.parse ⟨.tooDeep, some position⟩).text =
      "Parser error at position " ++ toString position ++ ": Formula nested too deeply") ∧
    ∀ source e, lex source = .error e → ∀ strict, Reports source strict (.lex e) := by
  refine ⟨fun limit stop ts => expression_tooDeep_iff,
    fun limit stop u rest hviable hplunges => expression_tooDeep hviable hplunges rest, ?_, ?_,
    text_of_tooDeep, ?_⟩
  · intro tokens hend hnest strict e hparse hmessage
    obtain ⟨u, hu, _, hdeep⟩ :=
      exists_viable_of_parse hend hparse (eq_tooDeep_of_message hmessage)
    have hcount := hnest u hu
    have hlimit : nestingLimit = 89 := rfl
    omega
  · intro u hviable hopen
    obtain ⟨v, t, later, rfl, hbefore, hplunges⟩ := exists_token_of_deep hviable hopen
    have hparse : ∀ rest strict, EndMarked ((v ++ t :: later) ++ rest) →
        parse ((v ++ t :: later) ++ rest) strict = .error ⟨.tooDeep, some t.position⟩ := by
      intro rest strict hend
      rw [List.append_assoc, List.cons_append] at hend ⊢
      exact parse_tooDeep hend hbefore hplunges strict
    refine ⟨v, t, later, rfl, hplunges, fun rest strict =>
      ⟨fun hrest => hparse rest strict (hrest.append_left _), fun source hlex => ⟨?_, ?_⟩⟩⟩
    · obtain ⟨s, hs, hkind⟩ : ∃ s ∈ v ++ t :: later, s.kind = .openParen := by
        have hpos : 0 < openCount (v ++ t :: later) := by omega
        simpa only [openCount, List.countP_pos_iff, decide_eq_true_eq] using hpos
      exact not_isBlankText_of_lex hlex (List.mem_append_left rest hs) hkind
    · refine reports_of_error fun maxVars => truthTable_eq_error_parse_iff.2 ⟨_, hlex, ?_⟩
      exact hparse rest strict (endMarked_of_lex hlex)
  · intro source e hlex strict
    exact reports_of_error fun maxVars => truthTable_eq_error_lex_iff.2 hlex

/-- The tokens of a row of opening parentheses. -/
theorem munch_openParens (start n : Nat) : Munch start (List.replicate n '(')
    ((List.range' start n).map fun i => ⟨.openParen, "(", i⟩) := by
  induction n generalizing start with
  | zero => exact .done
  | succ n ih =>
    have hglyph : Lexeme.glyph? '(' = some .openParen := rfl
    exact Munch.glyph hglyph (ih (start + 1))

/-- A run of negations is not nested at all.  Three hundred parentheses but one are, whether one of them is
closed or the text ends there, and the one behind the ninetieth is named. -/
theorem tooDeep_of_parens_row :
    let signs : List Token := List.replicate 100 ⟨.negation, "~", 0⟩ ++ [Token.endMark 100]
    let opened : List Token := (List.range' 0 299).map fun i => ⟨.openParen, "(", i⟩
    let source := String.ofList (List.replicate 299 '(')
    (EndMarked signs ∧ NestedWithin 60 (tokensAhead signs) ∧
      ∃ e, parse signs true = .error e ∧ e.fault.message ≠ "Formula nested too deeply") ∧
    parse (opened ++ [⟨.closeParen, ")", 299⟩, Token.endMark 300]) false =
      .error ⟨.tooDeep, some 90⟩ ∧
    lex source = .ok (opened ++ [Token.endMark 299]) ∧
    (∃ response, (Directory.files ⟨[]⟩).respond ["--", source] = .ok response ∧ response.exitCode = 1 ∧
      response.output = source ++ ": Parser error at position 90: Formula nested too deeply\n") ∧
    lex "((p) & $" = .error ⟨.notLetter '$', 7⟩ ∧
    Reports "((p) & $" true (.lex ⟨.notLetter '$', 7⟩) := by
  intro signs opened source
  obtain ⟨_, _, hwithin, hbeyond, htext, hlexing⟩ := tooDeep_of_parens
  have hsigns : parse signs true = .error ⟨.operandExpected none, some 100⟩ := by decide +kernel
  have hend : EndMarked signs := endMarked_append_endMark _ 100
  have hnest : NestedWithin 60 (tokensAhead signs) := by
    intro u hu
    have hle : openCount u ≤ openCount (tokensAhead signs) := hu.sublist.countP_le
    have hnone : openCount (tokensAhead signs) = 0 := by decide +kernel
    omega
  have hkinds : opened.map Token.kind = List.replicate 299 .openParen := by decide +kernel
  have hviable : Viable (opened.map Token.kind) := hkinds ▸ viable_openParens 299
  have hcount : closeCount opened + 299 ≤ openCount opened := by decide +kernel
  have hmunch : Munch 0 source.toList opened := by
    rw [String.toList_ofList]
    exact munch_openParens 0 299
  have hlex : lex source = .ok (opened ++ [Token.endMark 299]) := by
    have hlength : source.length = 299 := by
      rw [String.length_ofList, List.length_replicate]
    rw [lex_of_munch hmunch, hlength]
    rfl
  have hother : lex "((p) & $" = .error ⟨.notLetter '$', 7⟩ := by decide +kernel
  have hclosed : EndMarked [⟨.closeParen, ")", 299⟩, Token.endMark 300] := ⟨_, rfl, rfl⟩
  obtain ⟨v, t, later, hsplit, hplunges, hfails⟩ := hbeyond opened hviable hcount
  have hposition : t.position = 90 := by
    have hopen : ∀ s ∈ v, s.kind = .openParen := fun s hs => by
      have hmem : s ∈ opened := hsplit ▸ List.mem_append_left _ hs
      exact List.eq_of_mem_replicate (hkinds ▸ List.mem_map_of_mem hmem)
    have hlength : v.length = 90 := hplunges.length_eq_of_openParens hopen
    have hnext : opened[90]? = some t := by
      rw [hsplit, ← hlength]
      simp
    have hrow : opened[90]? = some ⟨.openParen, "(", 90⟩ := by decide +kernel
    rw [hrow] at hnext
    cases hnext
    rfl
  rw [hposition] at hfails
  obtain ⟨hblank, _, hreports⟩ := (hfails _ false).2 source hlex
  refine ⟨⟨hend, hnest, _, hsigns, hwithin signs hend hnest true _ hsigns⟩,
    (hfails _ false).1 hclosed, hlex, ?_, hother, hlexing _ _ hother true⟩
  -- from here on the text counts only as one that is not blank
  clear_value source
  have hsingle : nonblank ([source] ++ []) = [] ++ source :: [] := by simp [nonblank, hblank]
  rcases hreports (Directory.files ⟨[]⟩) ["--", source] { formulas := [source] } [] rfl rfl rfl [] []
      hsingle with
    ⟨⟨_, hnone, _⟩, _⟩ | ⟨response, blocks, hresponse, hcode, houtput, hlength, hblock⟩
  · cases hnone
  · obtain ⟨block, rfl⟩ := List.length_eq_one_iff.1 hlength
    refine ⟨response, hresponse, hcode, ?_⟩
    obtain rfl : block = _ := Option.some.inj hblock
    have hline : (FormulaError.parse ⟨.tooDeep, some 90⟩).text =
        "Parser error at position 90: Formula nested too deeply" := htext 90
    rw [houtput, hline, String.join_cons, String.join_nil, String.append_empty, String.append_assoc,
      String.append_assoc]
    rfl

end CommandLine

end Propositional
