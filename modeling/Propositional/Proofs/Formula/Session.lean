import Propositional.Proofs.Formula.Breaking
import Propositional.Proofs.Formula.Indexed
import Propositional.Proofs.Result

/-!
# Sessions with a parser

The steps of a parser may be taken in any order, also after some of them have failed.

* `Parser.performAll_append`, `Parser.movesTo_after` — a parser after some steps has left tokens behind;
* `Reader.Advances` — a reader that succeeds takes at least one token;
* `TooDeep`, `Level.tooDeep_of_read` — reading gives up for the depth of nesting only where parentheses
  are nested beyond the limit;
* `Parser.Folds` — the rounds of a chain, one after the other, with no bound on their number;
  `Parser.folds_readChain` — a chain of any kind ends after some rounds;
* `Parser.Keeps` — what one step does, and how it may fail; `Parser.keeps_perform` — each step does so;
* `session_keeps` — and so does each step of a session on a sequence that ends with an end mark, also when
  an index is counted in place of taking tokens away;
* `parse_errors_not_only` — a step may also run out of depth.
-/

namespace Propositional

/-! ### Tokens taken -/

/-- A reader that succeeds takes at least one token. -/
def Reader.Advances (reader : Reader) : Prop :=
  ∀ ts f rest, reader ts = ⟨.ok f, rest⟩ → rest.length < ts.length

theorem Level.read_advances (stop : Token) (level : Level) : (level.read stop).Advances := by
  intro ts f rest hread
  have hsound : (level.read stop).Sound level (nestingLimit + 1) :=
    Level.reader_sound (expression_shortens stop nestingLimit) (expression_sound stop nestingLimit) level
  obtain ⟨w, rfl, hw, _, _⟩ := hsound ts f rest hread
  have hpos := List.length_pos_iff.2 hw.ne_nil
  rw [List.length_append]
  omega

theorem readFormula_advances (stop : Token) (strict : Bool) : (readFormula stop strict).Advances := by
  intro ts f rest hread
  refine Level.read_advances stop .loosest ts f rest ?_
  -- the end of the formula is only looked at
  unfold readFormula at hread
  split at hread
  · rename_i g t later heq
    split at hread
    · cases hread
    · rw [heq, hread]
  · exact hread

/-! ### Depth -/

/-- From some place on, more parentheses are opened than the limit allows. -/
def TooDeep (ts : List Token) : Prop := ∃ w, w <:+ ts ∧ ¬ NestedWithin nestingLimit w

theorem TooDeep.of_suffix {w ts : List Token} (h : TooDeep w) (hsuffix : w <:+ ts) : TooDeep ts := by
  obtain ⟨v, hv, hdeep⟩ := h
  exact ⟨v, hv.trans hsuffix, hdeep⟩

/-- Reading gives up for the depth of nesting only where parentheses are nested beyond the limit. -/
theorem Level.tooDeep_of_read {stop : Token} {level : Level} {ts rest : List Token} {e : ParseError}
    (hread : level.read stop ts = ⟨.error e, rest⟩) (hfault : e.fault = .tooDeep) : TooDeep ts := by
  refine ⟨ts, List.suffix_refl ts, fun hnest => ?_⟩
  have hexplains : (level.read stop).Explains stop level (nestingLimit + 1) :=
    Level.reader_explains (expression_shortens stop nestingLimit)
      (expression_sound stop nestingLimit) (expression_explains stop nestingLimit) level
  exact hexplains.fault_ne_tooDeep (nestedWithin_iff_nestedBelow.1 hnest) hread hfault

namespace Parser

/-! ### The rounds of a chain -/

/-- The rounds of a chain behind the formula `left`: as long as a token of the kind comes next, it is
taken, a further operand is read, and both are joined. -/
inductive Folds (kind : TokenKind) (level : Level) :
    Formula → Parser → Except CallError Formula → Parser → Prop
  | done {left : Formula} {p : Parser} (ends : p.peek.kind ≠ kind) :
      Folds kind level left p (.ok left) p
  | unread {left : Formula} {p q : Parser} {e : ParseError} (sign : p.peek.kind = kind)
      (operand : p.consume.2.read level = (.error e, q)) :
      Folds kind level left p (.error (.ofReading e)) q
  | unjoined {left right : Formula} {p q : Parser} {e : NodeError} (sign : p.peek.kind = kind)
      (operand : p.consume.2.read level = (.ok right, q))
      (node : Formula.connect kind left right = .error e) :
      Folds kind level left p (.error (.node e)) q
  | again {left right f : Formula} {p q r : Parser} {result : Except CallError Formula}
      (sign : p.peek.kind = kind) (operand : p.consume.2.read level = (.ok right, q))
      (node : Formula.connect kind left right = .ok f) (later : Folds kind level f q result r) :
      Folds kind level left p result r

/-- What a parser reads is what the reader of the level reads from the tokens ahead. -/
theorem read_moveTo {p : Parser} {level : Level} {ts rest : List Token}
    {result : Except ParseError Formula} (hts : ts <:+ p.ahead)
    (h : level.read p.stop ts = ⟨result, rest⟩) :
    (p.moveTo ts).read level = (result, p.moveTo rest) := by
  have hrest : (level.read p.stop ts).rest <:+ ts := Level.read_shortens p.stop level ts
  rw [h] at hrest
  show ((level.read p.stop ts).result, (p.moveTo ts).moveTo (level.read p.stop ts).rest) = _
  rw [h, moveTo_moveTo hts hrest]

/-- A level is read from the tokens ahead. -/
theorem exists_of_read_eq {p q : Parser} {level : Level} {result : Except ParseError Formula}
    (h : p.read level = (result, q)) :
    ∃ rest, level.read p.stop p.ahead = ⟨result, rest⟩ ∧ rest <:+ p.ahead ∧ q = p.moveTo rest := by
  cases h
  exact ⟨_, rfl, Level.read_shortens p.stop level p.ahead, rfl⟩

/-- A chain fails where its first operand does. -/
theorem readChain_of_read_error {kind : TokenKind} {level : Level} {p q : Parser} {e : ParseError}
    (h : p.read level = (.error e, q)) : p.readChain kind level = (.error (.ofReading e), q) := by
  cases hkind : kind.connective? with
  | some c =>
    cases eq_connective_of_connective? hkind
    obtain ⟨rest, heq, hrest, rfl⟩ := exists_of_read_eq h
    simp only [readChain_connective, apply, Reader.chain_fail heq]
    rfl
  | none => simp only [readChain_of_connective?_eq_none hkind, readPair, h]

/-- The rounds of a chain behind a formula end as the chain does, whatever was read before. -/
theorem folds_goOn {p : Parser} (hstop : p.stop.kind = .endMark) (c : Connective) (level : Level)
    (left : Formula) :
    Folds (.connective c) level left p
      ((Reader.goOn c (level.read p.stop) left p.ahead).result.mapError .ofReading)
      (p.moveTo (Reader.goOn c (level.read p.stop) left p.ahead).rest) := by
  -- what is read further on is compared from the beginning of the chain
  suffices hrounds : ∀ ts, ts <:+ p.ahead → Folds (.connective c) level left (p.moveTo ts)
      ((Reader.goOn c (level.read p.stop) left ts).result.mapError .ofReading)
      (p.moveTo (Reader.goOn c (level.read p.stop) left ts).rest) by
    have hall := hrounds p.ahead (List.suffix_refl _)
    rwa [moveTo_ahead] at hall
  intro ts
  have htail : ∀ {t ts}, t :: ts <:+ p.ahead →
      (p.moveTo (t :: ts)).consume.2 = p.moveTo ts := fun hts => moveTo_moveTo hts (List.suffix_cons _ _)
  refine Reader.goOn_induction (Level.read_shortens p.stop level)
    (motive := fun left ts reading => ts <:+ p.ahead → Folds (.connective c) level left (p.moveTo ts)
      (reading.result.mapError .ofReading) (p.moveTo reading.rest)) ?done ?fail ?step left ts
  case done =>
    intro left ts hends _
    refine .done ?_
    cases ts with
    | nil => simp [moveTo, peek, hstop]
    | cons t ts => exact hends t rfl
  case fail =>
    intro left t ts e rest hsign heq hts
    refine .unread hsign ?_
    rw [htail hts]
    exact read_moveTo ((List.suffix_cons t ts).trans hts) heq
  case step =>
    intro left t ts right rest hsign heq ih hts
    have hlater : ts <:+ p.ahead := (List.suffix_cons t ts).trans hts
    have hrest := Level.read_shortens p.stop level ts
    rw [heq] at hrest
    refine .again hsign ?_ rfl (ih (hrest.trans hlater))
    rw [htail hts]
    exact read_moveTo hlater heq

/-- A chain of any kind ends after some rounds.  Where the kind is no connective there is one round at
most. -/
theorem folds_readChain {p : Parser} (hstop : p.stop.kind = .endMark) (kind : TokenKind)
    (level : Level) {first : Formula} {q : Parser} (h : p.read level = (.ok first, q)) :
    Folds kind level first q (p.readChain kind level).1 (p.readChain kind level).2 := by
  cases hkind : kind.connective? with
  | some c =>
    cases eq_connective_of_connective? hkind
    obtain ⟨rest, heq, hrest, rfl⟩ := exists_of_read_eq h
    have hend : (Reader.goOn c (level.read p.stop) first rest).rest <:+ rest :=
      Reader.chainFrom_shortens (Level.read_shortens p.stop level) rest first rest
    have hrounds := folds_goOn (p := p.moveTo rest) hstop c level first
    simp only [readChain_connective, apply, Reader.chain_ok heq]
    rw [← moveTo_moveTo hrest hend]
    exact hrounds
  | none =>
    rw [readChain_of_connective?_eq_none hkind]
    rcases readPair_cases hkind p level with ⟨e, r, hread, _⟩ | ⟨left, r, hread, hends, hpair⟩ |
        ⟨left, r, e, r', hread, hsign, hnext, hpair⟩ |
        ⟨left, r, right, r', hread, hsign, hnext, hnode, hpair⟩
    · rw [h] at hread
      cases hread
    · rw [h] at hread
      cases hread
      rw [hpair]
      exact .done hends
    · rw [h] at hread
      cases hread
      rw [hpair]
      exact .unread hsign hnext
    · rw [h] at hread
      cases hread
      rw [hpair]
      exact .unjoined hsign hnext hnode

/-! ### In front of the end mark -/

/-- The parser after some tokens have been taken. -/
def takeTokens : Nat → Parser → Parser
  | 0, p => p
  | n + 1, p => p.consume.2.takeTokens n

theorem movesTo_takeTokens (p : Parser) (n : Nat) : p.MovesTo (p.takeTokens n) := by
  induction n generalizing p with
  | zero => exact .refl p
  | succ n ih => exact p.movesTo_consume.trans (ih p.consume.2)

/-- A parser moves by taking one token after the other. -/
theorem MovesTo.exists_takeTokens {p q : Parser} (h : p.MovesTo q) : ∃ n, q = p.takeTokens n := by
  obtain ⟨rest, ⟨taken, htaken⟩, rfl⟩ := h
  induction taken generalizing p with
  | nil =>
    refine ⟨0, ?_⟩
    rw [List.nil_append] at htaken
    rw [htaken, moveTo_ahead]
    rfl
  | cons t taken ih =>
    have hahead : p.consume.2.ahead = taken ++ rest := by
      show p.ahead.tail = taken ++ rest
      rw [← htaken]
      rfl
    obtain ⟨n, hn⟩ := ih hahead.symm
    refine ⟨n + 1, ?_⟩
    show _ = p.consume.2.takeTokens n
    have hrest : rest <:+ p.ahead.tail := by
      rw [← htaken]
      exact List.suffix_append taken rest
    rw [← hn]
    exact (moveTo_moveTo (List.tail_suffix p.ahead) hrest).symm

/-- A parser stands in a sequence, and the first end mark is still ahead. -/
structure InFront (tokens : List Token) (p : Parser) : Prop where
  stands : p.StandsIn tokens
  taken : ∀ t ∈ tokens.take p.cursor, t.kind ≠ .endMark
  stop : p.stop.kind = .endMark
  ahead : ∀ t ∈ p.ahead, t.kind ≠ .endMark

/-- So it does in the beginning. -/
theorem exists_inFront {tokens : List Token} (h : EndMarked tokens) :
    ∃ p, ofTokens tokens = .ok p ∧ p.cursor = 0 ∧ p.InFront tokens := by
  obtain ⟨stop, later, _, hstop, hstream⟩ := h.exists_stream
  have hparser := parser_of_ofTokens hstream
  exact ⟨_, hparser, rfl, standsIn_of_ofTokens hparser, by simp, hstop,
    kind_ne_endMark_of_mem_tokensAhead⟩

namespace InFront

variable {tokens : List Token} {p q : Parser}

/-- And wherever it moves. -/
theorem movesTo (h : p.InFront tokens) (hq : p.MovesTo q) : q.InFront tokens where
  stands := h.stands.movesTo hq
  taken := by
    obtain ⟨later, hlater⟩ := h.stands
    obtain ⟨rest, ⟨taken, htaken⟩, rfl⟩ := hq
    have hcount : p.ahead.length - rest.length = taken.length := by
      rw [← htaken, List.length_append, Nat.add_sub_cancel]
    have hnow : (tokens.drop p.cursor).take taken.length = taken := by
      rw [hlater, ← htaken, List.append_assoc, List.take_left]
    intro t ht
    simp only [moveTo, hcount, List.take_add, hnow] at ht
    rcases List.mem_append.1 ht with ht | ht
    · exact h.taken t ht
    · refine h.ahead t ?_
      rw [← htaken]
      exact List.mem_append_left rest ht
  stop := by
    obtain ⟨_, _, rfl⟩ := hq
    exact h.stop
  ahead := by
    obtain ⟨rest, hrest, rfl⟩ := hq
    exact fun t ht => h.ahead t (hrest.subset ht)

/-- Its tokens stand in front of the next end mark. -/
theorem standsAt (h : p.InFront tokens) : p.StandsAt tokens (p.cursor + p.ahead.length) where
  place_eq := rfl
  before := by
    refine ⟨?_, Nat.le_add_left _ _, h.ahead, h.stop⟩
    rw [Nat.add_sub_cancel]
    exact h.stands

end InFront

/-! ### What a step does -/

/-- How a step may fail: with an error of the tokens if it reads a formula; for want of a node if it is
a chain of a kind that is no connective; and for want of depth if it reads a formula without being a
whole run, in front of parentheses that are nested beyond the limit. -/
def MayFail (p : Parser) (call : Call) : CallError → Prop
  | .parse _ => call ≠ .peek ∧ call ≠ .consume
  | .node e => ∃ kind level, call = .readChain kind level ∧ kind.connective? = none ∧
      e = .notBinary kind
  | .outOfDepth => call ≠ .peek ∧ call ≠ .consume ∧ (∀ strict, call ≠ .run strict) ∧ TooDeep p.ahead

/-- What a step from a parser on a token sequence does: its outcome, and the parser after it. -/
structure Keeps (tokens : List Token) (p : Parser) (call : Call) (outcome : Outcome) (q : Parser) :
    Prop where
  /-- The cursor stands at a token, and this is the next one. -/
  inside : tokens[q.cursor]? = some q.peek
  /-- The cursor does not go back. -/
  forward : p.cursor ≤ q.cursor
  /-- No end mark has been passed. -/
  unmarked : ∀ t ∈ tokens.take q.cursor, t.kind ≠ .endMark
  /-- Tokens are taken one after the other, and each that is looked at stands in the sequence. -/
  takes : ∃ n, q = p.takeTokens n ∧
    ∀ i ≤ n, tokens[(p.takeTokens i).cursor]? = some (p.takeTokens i).peek
  /-- Where a formula is read, at least one token is taken. -/
  progress : ∀ f, outcome = .formula f → p.cursor < q.cursor
  /-- A chain ends after some rounds. -/
  rounds : ∀ kind level first r, call = .readChain kind level → p.read level = (.ok first, r) →
    ∃ result, outcome = .ofResult result ∧ Folds kind level first r result q
  /-- There are three ways to fail. -/
  failure : ∀ e, outcome = .failed e → p.MayFail call e

theorem MayFail.of_suffix {p q : Parser} {call : Call} {e : CallError} (h : q.MayFail call e)
    (hsuffix : q.ahead <:+ p.ahead) : p.MayFail call e := by
  cases e with
  | parse _ => exact h
  | node _ => exact h
  | outOfDepth =>
    obtain ⟨hpeek, hconsume, hrun, hdeep⟩ := h
    exact ⟨hpeek, hconsume, hrun, hdeep.of_suffix hsuffix⟩

theorem ofResult_eq_formula_iff {result : Except CallError Formula} {f : Formula} :
    Outcome.ofResult result = .formula f ↔ result = .ok f := by
  cases result <;> simp [Outcome.ofResult]

theorem ofResult_eq_failed_iff {result : Except CallError Formula} {e : CallError} :
    Outcome.ofResult result = .failed e ↔ result = .error e := by
  cases result <;> simp [Outcome.ofResult]

section Steps

variable {p q : Parser} {f : Formula} {kind : TokenKind} {level : Level}

theorem cursor_lt_of_apply {reader : Reader} (h : reader.Advances)
    (hread : (p.apply reader).1 = .ok f) : p.cursor < (p.apply reader).2.cursor := by
  have hless := h p.ahead f (reader p.ahead).rest (by rw [← show (reader p.ahead).result = _ from hread])
  show p.cursor < p.cursor + (p.ahead.length - (reader p.ahead).rest.length)
  omega

theorem cursor_lt_of_read (h : p.read level = (.ok f, q)) : p.cursor < q.cursor := by
  have hless := cursor_lt_of_apply (f := f) (Level.read_advances p.stop level) (congrArg Prod.fst h)
  rwa [show p.apply (level.read p.stop) = (.ok f, q) from h] at hless

/-- The rounds of a chain leave tokens behind. -/
theorem Folds.movesTo {left : Formula} {result : Except CallError Formula}
    (h : Folds kind level left p result q) : p.MovesTo q := by
  induction h with
  | done _ => exact .refl _
  | unread _ operand => exact movesTo_of_operand operand
  | unjoined _ operand _ => exact movesTo_of_operand operand
  | again _ operand _ _ ih => exact (movesTo_of_operand operand).trans ih

/-- The first operand of a chain takes a token, and the rounds behind it do not go back. -/
theorem cursor_lt_of_readChain (hstop : p.stop.kind = .endMark)
    (h : (p.readChain kind level).1 = .ok f) : p.cursor < (p.readChain kind level).2.cursor := by
  rcases hread : p.read level with ⟨e | first, q⟩
  · rw [readChain_of_read_error hread] at h
    cases h
  · exact Nat.lt_of_lt_of_le (cursor_lt_of_read hread)
      (folds_readChain hstop kind level hread).movesTo.cursor_le

/-- A step that reads a formula takes at least one token. -/
theorem cursor_lt_of_perform (hstop : p.stop.kind = .endMark) {call : Call}
    (h : (p.perform call).1 = .formula f) : p.cursor < (p.perform call).2.cursor := by
  cases call with
  | peek => cases h
  | consume => cases h
  | run strict =>
    exact cursor_lt_of_apply (readFormula_advances p.stop strict)
      (mapError_eq_ok_iff.1 (ofResult_eq_formula_iff.1 h))
  | read level =>
    exact cursor_lt_of_apply (Level.read_advances p.stop level)
      (mapError_eq_ok_iff.1 (ofResult_eq_formula_iff.1 h))
  | readChain kind level => exact cursor_lt_of_readChain hstop (ofResult_eq_formula_iff.1 h)

theorem tooDeep_of_read {e : ParseError} (hread : p.read level = (.error e, q))
    (hfault : e.fault = .tooDeep) : TooDeep p.ahead := by
  obtain ⟨rest, heq, _, _⟩ := exists_of_read_eq hread
  exact Level.tooDeep_of_read heq hfault

/-- The error of a reader is passed on as an error of the tokens, unless the depth is exceeded. -/
theorem mayFail_ofReading {call : Call} {e : ParseError} (hpeek : call ≠ .peek)
    (hconsume : call ≠ .consume) (hrun : ∀ strict, call ≠ .run strict)
    (hread : p.read level = (.error e, q)) : p.MayFail call (.ofReading e) := by
  unfold CallError.ofReading
  split
  · rename_i hfault
    exact ⟨hpeek, hconsume, hrun, tooDeep_of_read hread hfault⟩
  · exact ⟨hpeek, hconsume⟩

theorem connect_eq_error {left right : Formula} {e : NodeError}
    (h : Formula.connect kind left right = .error e) :
    kind.connective? = none ∧ e = .notBinary kind := by
  unfold Formula.connect at h
  split at h
  · cases h
  · rename_i hkind
    cases h
    exact ⟨hkind, rfl⟩

/-- The rounds of a chain fail as a reader does, or for want of a node. -/
theorem Folds.mayFail {left : Formula} {e : CallError}
    (h : Folds kind level left p (.error e) q) : p.MayFail (.readChain kind level) e := by
  generalize hresult : Except.error e = result at h
  induction h with
  | done _ => cases hresult
  | unread _ operand =>
    cases hresult
    have hlater : MayFail _ (.readChain kind level) _ :=
      mayFail_ofReading (by simp) (by simp) (by simp) operand
    exact hlater.of_suffix (movesTo_consume _).ahead_suffix
  | unjoined _ _ node =>
    cases hresult
    obtain ⟨hkind, he⟩ := connect_eq_error node
    exact ⟨kind, level, rfl, hkind, he⟩
  | again _ operand _ _ ih => exact (ih hresult).of_suffix (movesTo_of_operand operand).ahead_suffix

theorem mayFail_readChain (hstop : p.stop.kind = .endMark) {e : CallError}
    (h : (p.readChain kind level).1 = .error e) : p.MayFail (.readChain kind level) e := by
  rcases hread : p.read level with ⟨cause | first, q⟩
  · rw [readChain_of_read_error hread] at h
    cases h
    exact mayFail_ofReading (by simp) (by simp) (by simp) hread
  · have hfolds := folds_readChain hstop kind level hread
    rw [h] at hfolds
    exact hfolds.mayFail.of_suffix (movesTo_of_read hread).ahead_suffix

/-- There are three ways to fail. -/
theorem mayFail_of_perform (hstop : p.stop.kind = .endMark) {call : Call} {e : CallError}
    (h : (p.perform call).1 = .failed e) : p.MayFail call e := by
  cases call with
  | peek => cases h
  | consume => cases h
  | run strict =>
    obtain ⟨cause, _, rfl⟩ := mapError_eq_error_iff.1 (ofResult_eq_failed_iff.1 h)
    exact ⟨by simp, by simp⟩
  | read level =>
    obtain ⟨cause, hcause, rfl⟩ := mapError_eq_error_iff.1 (ofResult_eq_failed_iff.1 h)
    have hread : p.read level = (.error cause, (p.read level).2) := Prod.ext hcause rfl
    exact mayFail_ofReading (by simp) (by simp) (by simp) hread
  | readChain kind level => exact mayFail_readChain hstop (ofResult_eq_failed_iff.1 h)

end Steps

/-- Each step in front of the end mark keeps what there is to keep. -/
theorem keeps_perform {tokens : List Token} {p : Parser} (h : p.InFront tokens) (call : Call) :
    Keeps tokens p call (p.perform call).1 (p.perform call).2 where
  inside := (h.movesTo (p.movesTo_perform call)).stands.getElem?_cursor
  forward := (p.movesTo_perform call).cursor_le
  unmarked := (h.movesTo (p.movesTo_perform call)).taken
  takes := by
    obtain ⟨n, hn⟩ := (p.movesTo_perform call).exists_takeTokens
    exact ⟨n, hn, fun i _ => (h.movesTo (p.movesTo_takeTokens i)).stands.getElem?_cursor⟩
  progress := fun _ => cursor_lt_of_perform h.stop
  rounds := by
    rintro kind level first r rfl hread
    exact ⟨_, rfl, folds_readChain h.stop kind level hread⟩
  failure := fun _ => mayFail_of_perform h.stop

/-! ### Sessions -/

theorem performAll_append (p : Parser) (calls : List Call) (call : Call) :
    p.performAll (calls ++ [call]) = p.performAll calls ++ [(p.after calls).perform call] := by
  induction calls generalizing p with
  | nil => rfl
  | cons first calls ih => exact congrArg (p.perform first :: ·) (ih (p.perform first).2)

/-- A parser after some steps has left tokens behind. -/
theorem movesTo_after (p : Parser) (calls : List Call) : p.MovesTo (p.after calls) := by
  induction calls generalizing p with
  | nil => exact .refl p
  | cons first calls ih => exact (p.movesTo_perform first).trans (ih (p.perform first).2)

end Parser

/-- **Sessions with a parser.**  On a token sequence that ends with an end mark, and may have others
before, a parser can be set up.  Whatever steps are taken with it, whether they fail or not: the cursor
stands at a token of the sequence, it does not go back and does not pass an end mark; no token outside
the sequence is looked at; a chain of any kind ends after some rounds; reading a formula takes at least
one token; and a step fails with an error of the tokens, for want of a node if it is a chain of a kind
that is no connective, or for want of depth, unless it is a run, in front of parentheses that are
nested beyond the limit.  A parser that keeps the whole sequence and counts an index gives the same in each
step: wherever it looks a token up there is one, and no loop takes more rounds than there are tokens. -/
theorem session_keeps {tokens : List Token} (h : EndMarked tokens) :
    ∃ p, Parser.ofTokens tokens = .ok p ∧ p.cursor = 0 ∧
      (∀ calls, Indexed.performAll tokens 0 calls =
        (p.performAll calls).map fun step => (some step.1, step.2.cursor)) ∧
      ∀ calls call,
        p.performAll (calls ++ [call]) = p.performAll calls ++ [(p.after calls).perform call] ∧
        Parser.Keeps tokens (p.after calls) call ((p.after calls).perform call).1
          ((p.after calls).perform call).2 := by
  obtain ⟨p, hp, hcursor, hfront⟩ := Parser.exists_inFront h
  refine ⟨p, hp, hcursor, fun calls => ?_, fun calls call => ⟨p.performAll_append calls call, ?_⟩⟩
  · rw [← hcursor, Indexed.performAll_eq hfront.standsAt]
  · exact Parser.keeps_perform (hfront.movesTo (p.movesTo_after calls)) call

/-- A chain whose kind is that of the end mark does not get past the mark in the middle: it takes the
negated name, looks at the mark twice, and then there is no operand.  A run after that fails too. -/
theorem session_keeps_inner_endMark :
    ∃ tokens : List Token,
      tokens.map Token.kind = [.negation, .name, .endMark, .name, .endMark] ∧ EndMarked tokens ∧
      ∃ p, Parser.ofTokens tokens = .ok p ∧
        (p.performAll [.readChain .endMark .negation, .run true]).map
            (fun step => (step.1, step.2.cursor)) =
          [(.failed (.parse ⟨.operandExpected none, some 2⟩), 2),
            (.failed (.parse ⟨.operandExpected none, some 2⟩), 2)] ∧
        Indexed.performAll tokens 0 [.readChain .endMark .negation, .run true] =
          [(some (.failed (.parse ⟨.operandExpected none, some 2⟩)), 2),
            (some (.failed (.parse ⟨.operandExpected none, some 2⟩)), 2)] ∧
        ∀ calls call, Parser.Keeps tokens (p.after calls) call ((p.after calls).perform call).1
          ((p.after calls).perform call).2 := by
  let tokens : List Token :=
    [⟨.negation, "¬", 0⟩, ⟨.name, "p", 1⟩, ⟨.endMark, "", 2⟩, ⟨.name, "q", 3⟩, ⟨.endMark, "", 4⟩]
  have hend : EndMarked tokens := ⟨⟨.endMark, "", 4⟩, rfl, rfl⟩
  obtain ⟨p, hp, _, hindexed, hkeeps⟩ := session_keeps hend
  have hstart : Parser.ofTokens tokens = .ok ⟨0, tokens.take 2, ⟨.endMark, "", 2⟩⟩ := by decide
  rw [hstart] at hp
  cases hp
  refine ⟨tokens, rfl, hend, _, hstart, by decide +kernel, ?_, fun calls call => (hkeeps calls call).2⟩
  rw [hindexed]
  decide +kernel

/-- Steps that fail may do so neither with an error of the tokens nor for want of a node: an implication
in three hundred pairs of parentheses is not read to its end. -/
theorem parse_errors_not_only :
    ¬ ∀ tokens : List Token, EndMarked tokens → ∀ p, Parser.ofTokens tokens = .ok p →
      ∀ calls call e, ((p.after calls).perform call).1 = .failed e →
        (∃ cause, e = .parse cause) ∨
        ∃ kind level cause, call = .readChain kind level ∧ kind.connective? = none ∧
          e = .node cause := by
  intro hall
  let opened : List Token := (List.range 300).map fun (i : Nat) => ⟨.openParen, "(", i⟩
  let closed : List Token := (List.range 300).map fun (i : Nat) => ⟨.closeParen, ")", (301 + i : Nat)⟩
  let stop : Token := .endMark 601
  let p : Parser := ⟨0, opened ++ ⟨.name, "p", 300⟩ :: closed, stop⟩
  have hp : Parser.ofTokens (p.ahead ++ [stop]) = .ok p := by decide +kernel
  have hfails : ((p.after []).perform (.read (.binary .imp))).1 = .failed .outOfDepth := by
    decide +kernel
  rcases hall (p.ahead ++ [stop]) ⟨stop, by simp, rfl⟩ p hp [] _ _ hfails with
    ⟨cause, hcause⟩ | ⟨kind, level, cause, hcall, _⟩
  · cases hcause
  · cases hcall

end Propositional
