import Propositional.Proofs.Formula.Parsing

/-!
# The cursor of a parser

A parser keeps the tokens that are still ahead of it.  Seen from the whole sequence, this is the part
behind its cursor, up to the first end mark.

* `Parser.MovesTo` — a parser comes to another one by leaving tokens behind; `Parser.movesTo_perform` —
  this is all that a step does, whether it fails or not;
* `Parser.StandsIn` — the cursor of a parser stands at the next token of a sequence;
* `Parser.standsIn_of_ofTokens`, `Parser.StandsIn.movesTo` — so it does in the beginning, and wherever the
  parser moves; `Parser.StandsIn.performAll` — and after any number of steps;
* `Parser.perform_read_binary` — a binary level is the chain of its connective;
* `Parser.exists_readChain_of_failed_node` — no other step than a chain of a kind that is no connective
  fails for want of a node.
-/

namespace Propositional

/-- A sequence that can be cut at its first end mark consists of the two parts and what is left. -/
theorem exists_append_of_ofTokens {tokens : List Token} {stream : TokenStream}
    (h : TokenStream.ofTokens tokens = .ok stream) :
    ∃ later, tokens = stream.ahead ++ stream.stop :: later := by
  unfold TokenStream.ofTokens at h
  split at h
  · rename_i stop later _ hdrop
    cases h
    refine ⟨later, ?_⟩
    rw [← hdrop]
    exact List.takeWhile_append_dropWhile.symm
  · cases h

theorem readFormula_shortens (stop : Token) (strict : Bool) : (readFormula stop strict).Shortens := by
  intro ts
  have hread : (Level.loosest.read stop ts).rest <:+ ts := Level.read_shortens stop .loosest ts
  unfold readFormula
  split
  · rename_i f t rest heq
    rw [heq] at hread
    split <;> exact hread
  · exact hread

theorem eq_connective_of_connective? {kind : TokenKind} {c : Connective}
    (h : kind.connective? = some c) : kind = .connective c := by
  cases kind <;> cases h
  rfl

namespace Parser

/-! ### Moves -/

/-- A parser comes to another one by leaving tokens behind. -/
def MovesTo (p q : Parser) : Prop := ∃ rest, rest <:+ p.ahead ∧ q = p.moveTo rest

@[simp] theorem moveTo_ahead (p : Parser) : p.moveTo p.ahead = p := by
  simp [moveTo]

theorem moveTo_moveTo {p : Parser} {rest later : List Token} (hrest : rest <:+ p.ahead)
    (hlater : later <:+ rest) : (p.moveTo rest).moveTo later = p.moveTo later := by
  have hrestLength := hrest.length_le
  have hlaterLength := hlater.length_le
  have hcursor : p.cursor + (p.ahead.length - rest.length) + (rest.length - later.length) =
      p.cursor + (p.ahead.length - later.length) := by omega
  simp only [moveTo, hcursor]

namespace MovesTo

variable {p q r : Parser}

theorem refl (p : Parser) : p.MovesTo p := ⟨p.ahead, List.suffix_refl _, p.moveTo_ahead.symm⟩

theorem trans (h : p.MovesTo q) (hr : q.MovesTo r) : p.MovesTo r := by
  obtain ⟨rest, hrest, rfl⟩ := h
  obtain ⟨later, hlater, rfl⟩ := hr
  exact ⟨later, hlater.trans hrest, moveTo_moveTo hrest hlater⟩

theorem cursor_le (h : p.MovesTo q) : p.cursor ≤ q.cursor := by
  obtain ⟨rest, _, rfl⟩ := h
  exact Nat.le_add_right _ _

theorem ahead_suffix (h : p.MovesTo q) : q.ahead <:+ p.ahead := by
  obtain ⟨rest, hrest, rfl⟩ := h
  exact hrest

end MovesTo

theorem movesTo_apply (p : Parser) {reader : Reader} (hshort : reader.Shortens) :
    p.MovesTo (p.apply reader).2 :=
  ⟨_, hshort p.ahead, rfl⟩

theorem movesTo_read (p : Parser) (level : Level) : p.MovesTo (p.read level).2 :=
  p.movesTo_apply (Level.read_shortens p.stop level)

theorem movesTo_consume (p : Parser) : p.MovesTo p.consume.2 :=
  ⟨_, List.tail_suffix p.ahead, rfl⟩

theorem movesTo_of_read {p q : Parser} {level : Level} {result : Except ParseError Formula}
    (h : p.read level = (result, q)) : p.MovesTo q := by
  have hmoves := p.movesTo_read level
  rwa [h] at hmoves

/-- An operand behind the next token. -/
theorem movesTo_of_operand {p q : Parser} {level : Level} {result : Except ParseError Formula}
    (h : p.consume.2.read level = (result, q)) : p.MovesTo q :=
  p.movesTo_consume.trans (movesTo_of_read h)

/-- What a chain of a kind that is no connective does: the first operand fails, or no token of the kind
follows it, or else the second operand fails, or the two cannot be joined. -/
theorem readPair_cases {kind : TokenKind} (hkind : kind.connective? = none) (p : Parser)
    (level : Level) :
    (∃ e q, p.read level = (.error e, q) ∧ p.readPair kind level = (.error (.ofReading e), q)) ∨
    (∃ first q, p.read level = (.ok first, q) ∧ q.peek.kind ≠ kind ∧
      p.readPair kind level = (.ok first, q)) ∨
    (∃ first q e r, p.read level = (.ok first, q) ∧ q.peek.kind = kind ∧
      q.consume.2.read level = (.error e, r) ∧
      p.readPair kind level = (.error (.ofReading e), r)) ∨
    ∃ first q second r, p.read level = (.ok first, q) ∧ q.peek.kind = kind ∧
      q.consume.2.read level = (.ok second, r) ∧
      Formula.connect kind first second = .error (.notBinary kind) ∧
      p.readPair kind level = (.error (.node (.notBinary kind)), r) := by
  rcases hread : p.read level with ⟨e | first, q⟩
  · exact .inl ⟨e, q, rfl, by simp only [readPair, hread]⟩
  · by_cases hsign : q.peek.kind = kind
    · rcases hnext : q.consume.2.read level with ⟨e | second, r⟩
      · refine .inr (.inr (.inl ⟨first, q, e, r, rfl, hsign, hnext, ?_⟩))
        simp only [readPair, hread, if_pos hsign, hnext]
      · have hnode : Formula.connect kind first second = .error (.notBinary kind) := by
          rw [Formula.connect, hkind]
        refine .inr (.inr (.inr ⟨first, q, second, r, rfl, hsign, hnext, hnode, ?_⟩))
        simp only [readPair, hread, if_pos hsign, hnext, hnode]
        rfl
    · refine .inr (.inl ⟨first, q, rfl, hsign, ?_⟩)
      simp only [readPair, hread, if_neg hsign]

/-- A chain of a connective is one reader. -/
theorem readChain_connective (p : Parser) (c : Connective) (level : Level) :
    p.readChain (.connective c) level =
      ((p.apply (Reader.chain c (level.read p.stop))).1.mapError .ofReading,
        (p.apply (Reader.chain c (level.read p.stop))).2) := rfl

theorem readChain_of_connective?_eq_none {kind : TokenKind} (h : kind.connective? = none)
    (p : Parser) (level : Level) : p.readChain kind level = p.readPair kind level := by
  simp only [readChain, h]

theorem movesTo_readChain (p : Parser) (kind : TokenKind) (level : Level) :
    p.MovesTo (p.readChain kind level).2 := by
  cases hkind : kind.connective? with
  | some c =>
    cases eq_connective_of_connective? hkind
    exact p.movesTo_apply (Reader.chain_shortens (Level.read_shortens p.stop level))
  | none =>
    rw [readChain_of_connective?_eq_none hkind]
    rcases readPair_cases hkind p level with ⟨e, q, hread, hpair⟩ | ⟨first, q, hread, _, hpair⟩ |
        ⟨first, q, e, r, hread, _, hnext, hpair⟩ | ⟨first, q, second, r, hread, _, hnext, _, hpair⟩
    · rw [hpair]
      exact movesTo_of_read hread
    · rw [hpair]
      exact movesTo_of_read hread
    · rw [hpair]
      exact (movesTo_of_read hread).trans (movesTo_of_operand hnext)
    · rw [hpair]
      exact (movesTo_of_read hread).trans (movesTo_of_operand hnext)

/-- All that a step does to a parser is to leave tokens behind. -/
theorem movesTo_perform (p : Parser) (call : Call) : p.MovesTo (p.perform call).2 := by
  cases call with
  | peek => exact .refl p
  | consume => exact p.movesTo_consume
  | run strict => exact p.movesTo_apply (readFormula_shortens p.stop strict)
  | read level => exact p.movesTo_read level
  | readChain kind level => exact p.movesTo_readChain kind level

/-! ### The place in a sequence -/

/-- Behind the cursor the sequence goes on with the tokens ahead and the end mark. -/
def StandsIn (tokens : List Token) (p : Parser) : Prop :=
  ∃ later, tokens.drop p.cursor = p.ahead ++ p.stop :: later

theorem standsIn_of_ofTokens {tokens : List Token} {p : Parser} (h : ofTokens tokens = .ok p) :
    p.StandsIn tokens := by
  cases hstream : TokenStream.ofTokens tokens with
  | error e =>
    rw [ofTokens, hstream] at h
    cases h
  | ok stream =>
    rw [ofTokens, hstream] at h
    cases h
    exact exists_append_of_ofTokens hstream

namespace StandsIn

variable {tokens : List Token} {p q : Parser}

/-- The next token is the one at the cursor. -/
theorem getElem?_cursor (h : p.StandsIn tokens) : tokens[p.cursor]? = some p.peek := by
  obtain ⟨later, hlater⟩ := h
  rw [← List.head?_drop, hlater]
  exact head?_append_stop p.ahead later p.stop

/-- Wherever a parser moves, its cursor stays at the next token. -/
theorem movesTo (h : p.StandsIn tokens) (hq : p.MovesTo q) : q.StandsIn tokens := by
  obtain ⟨later, hlater⟩ := h
  obtain ⟨rest, ⟨taken, htaken⟩, rfl⟩ := hq
  refine ⟨later, ?_⟩
  have hcount : p.ahead.length - rest.length = taken.length := by
    rw [← htaken, List.length_append, Nat.add_sub_cancel]
  show tokens.drop (p.cursor + (p.ahead.length - rest.length)) = rest ++ p.stop :: later
  rw [hcount, ← List.drop_drop, hlater, ← htaken, List.append_assoc, List.drop_left]

/-- So it does after any number of steps. -/
theorem performAll (h : p.StandsIn tokens) (calls : List Call) :
    ∀ step ∈ p.performAll calls, step.2.StandsIn tokens := by
  induction calls generalizing p with
  | nil =>
    intro step hstep
    cases hstep
  | cons call calls ih =>
    intro step hstep
    rcases List.mem_cons.1 hstep with rfl | hlater
    · exact h.movesTo (p.movesTo_perform call)
    · exact ih (h.movesTo (p.movesTo_perform call)) step hlater

end StandsIn

/-! ### Steps by name -/

/-- A binary level is the chain of its connective. -/
theorem perform_read_binary (p : Parser) (c : Connective) :
    p.perform (.read (.binary c)) = p.perform (.readChain (.connective c) c.operandLevel) := by
  have hlevel : (Level.binary c).read p.stop = Reader.chain c (c.operandLevel.read p.stop) :=
    reader_binary p.stop _ c
  simp only [perform, Parser.read, Parser.readChain, TokenKind.connective?, hlevel]

/-- The error of a reader is never passed on as a missing node. -/
theorem ofResult_mapError_ne_node {wrap : ParseError → CallError}
    (hwrap : ∀ cause e, wrap cause ≠ .node e) (result : Except ParseError Formula) (e : NodeError) :
    Outcome.ofResult (result.mapError wrap) ≠ .failed (.node e) := by
  intro hresult
  cases result with
  | error cause => exact hwrap cause e (Outcome.failed.inj hresult)
  | ok f => cases hresult

theorem ofReading_ne_node (cause : ParseError) (e : NodeError) :
    CallError.ofReading cause ≠ .node e := by
  unfold CallError.ofReading
  split <;> simp

/-- Nodes are always built from the operator that they need, unless a chain is asked for with a kind
that is no connective. -/
theorem exists_readChain_of_failed_node {p : Parser} {call : Call} {e : NodeError}
    (h : (p.perform call).1 = .failed (.node e)) :
    ∃ kind level, call = .readChain kind level ∧ kind.connective? = none := by
  cases call with
  | peek => cases h
  | consume => cases h
  | run strict => exact absurd h (ofResult_mapError_ne_node (by simp) _ e)
  | read level => exact absurd h (ofResult_mapError_ne_node ofReading_ne_node _ e)
  | readChain kind level =>
    cases hkind : kind.connective? with
    | none => exact ⟨kind, level, rfl, hkind⟩
    | some c =>
      simp only [perform, Parser.readChain, hkind] at h
      exact absurd h (ofResult_mapError_ne_node ofReading_ne_node _ e)

end Parser

end Propositional
