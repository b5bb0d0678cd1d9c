import Propositional.Proofs.Formula.Session

/-!
# A parser begins afresh anywhere

What a step of a parser does depends neither on what was done before it, nor on the tokens that were taken,
nor on those beyond the next end mark.  A new parser for the tokens from the cursor on does the same, and
so does a parser by index in the midst of any other sequence.

* `Parser.shift` — a parser that has taken more tokens; `Parser.perform_shift`, `Parser.performAll_shift` —
  each step from there gives the same and moves the cursor as far, and so do several;
* `EndMarked.drop` — a tail of a sequence that ends with an end mark does so, too;
* `Parser.InFront.exists_fresh` — a parser anywhere in a session is a new one, shifted;
* `Indexed.perform_of_ofTokens` — a step by index does what the first step of a new parser does;
* `session_fresh` — all this for any place in a session.
-/

namespace Propositional

namespace Parser

/-! ### More tokens taken -/

/-- A parser that has taken `n` more tokens. -/
def shift (n : Nat) (p : Parser) : Parser := { p with cursor := n + p.cursor }

@[simp] theorem shift_ahead (n : Nat) (p : Parser) : (p.shift n).ahead = p.ahead := rfl

@[simp] theorem shift_stop (n : Nat) (p : Parser) : (p.shift n).stop = p.stop := rfl

@[simp] theorem shift_cursor (n : Nat) (p : Parser) : (p.shift n).cursor = n + p.cursor := rfl

theorem moveTo_shift (n : Nat) (p : Parser) (rest : List Token) :
    (p.shift n).moveTo rest = (p.moveTo rest).shift n := by
  simp only [moveTo, shift, Nat.add_assoc]

theorem peek_shift (n : Nat) (p : Parser) : (p.shift n).peek = p.peek := rfl

theorem consume_shift (n : Nat) (p : Parser) : (p.shift n).consume.2 = p.consume.2.shift n :=
  moveTo_shift n p _

theorem apply_shift (n : Nat) (p : Parser) (reader : Reader) :
    (p.shift n).apply reader = ((p.apply reader).1, (p.apply reader).2.shift n) := by
  rw [apply, apply, moveTo_shift]
  rfl

theorem read_shift (n : Nat) (p : Parser) (level : Level) :
    (p.shift n).read level = ((p.read level).1, (p.read level).2.shift n) :=
  apply_shift n p _

theorem readPair_shift (n : Nat) (p : Parser) (kind : TokenKind) (level : Level) :
    (p.shift n).readPair kind level =
      ((p.readPair kind level).1, (p.readPair kind level).2.shift n) := by
  rw [readPair, readPair, read_shift]
  rcases p.read level with ⟨e | first, q⟩
  · rfl
  · simp only [peek_shift, consume_shift, read_shift]
    split
    · rcases q.consume.2.read level with ⟨e | second, r⟩ <;> rfl
    · rfl

theorem readChain_shift (n : Nat) (p : Parser) (kind : TokenKind) (level : Level) :
    (p.shift n).readChain kind level =
      ((p.readChain kind level).1, (p.readChain kind level).2.shift n) := by
  cases hkind : kind.connective? with
  | none =>
    rw [readChain_of_connective?_eq_none hkind, readChain_of_connective?_eq_none hkind, readPair_shift]
  | some c =>
    cases eq_connective_of_connective? hkind
    rw [readChain_connective, readChain_connective, shift_stop, apply_shift]

/-- However many tokens were taken, each step gives the same and moves the cursor as far. -/
theorem perform_shift (n : Nat) (p : Parser) (call : Call) :
    (p.shift n).perform call = ((p.perform call).1, (p.perform call).2.shift n) := by
  cases call with
  | peek => rfl
  | consume => exact Prod.ext rfl (consume_shift n p)
  | run strict => simp only [perform, run, shift_stop, apply_shift]
  | read level => simp only [perform, read_shift]
  | readChain kind level => simp only [perform, readChain_shift]

/-- So do several steps one after the other. -/
theorem performAll_shift (n : Nat) (p : Parser) (calls : List Call) :
    (p.shift n).performAll calls =
      (p.performAll calls).map fun step => (step.1, step.2.shift n) := by
  induction calls generalizing p with
  | nil => rfl
  | cons call calls ih =>
    rw [performAll, performAll, perform_shift, ih, List.map_cons]

end Parser

/-! ### Tails of a sequence -/

/-- A tail of a sequence that ends with an end mark does so, too. -/
theorem EndMarked.drop {tokens : List Token} (h : EndMarked tokens) {n : Nat} (hn : n < tokens.length) :
    EndMarked (tokens.drop n) := by
  obtain ⟨mark, hlast, hmark⟩ := h
  refine ⟨mark, ?_, hmark⟩
  rw [List.getLast?_drop, if_neg (Nat.not_le.2 hn), hlast]

theorem endMarked_of_ofTokens {tokens : List Token} {p : Parser} (h : Parser.ofTokens tokens = .ok p) :
    EndMarked tokens := by
  by_contra hend
  rw [Parser.ofTokens, ofTokens_of_not_endMarked hend] at h
  cases h

namespace Parser.InFront

variable {tokens : List Token} {p : Parser}

/-- A parser anywhere in a session is a new one, shifted. -/
theorem exists_fresh (h : p.InFront tokens) (hend : EndMarked tokens) :
    ∃ fresh, ofTokens (tokens.drop p.cursor) = .ok fresh ∧ fresh.cursor = 0 ∧
      p = fresh.shift p.cursor := by
  obtain ⟨later, hlater⟩ := h.stands
  have hlt : p.cursor < tokens.length := (List.getElem?_eq_some_iff.1 h.stands.getElem?_cursor).1
  have htail := hend.drop hlt
  rw [hlater] at htail
  refine ⟨⟨0, p.ahead, p.stop⟩, ?_, rfl, rfl⟩
  rw [hlater]
  exact parser_of_ofTokens (ofTokens_append h.ahead h.stop htail)

end Parser.InFront

/-! ### Steps by index -/

namespace Indexed

variable {tokens : List Token} {p : Parser}

/-- A step by index does what the first step of a new parser for the rest of the sequence does. -/
theorem perform_of_ofTokens {c : Nat} (h : Parser.ofTokens (tokens.drop c) = .ok p) (call : Call) :
    perform tokens c call = (some (p.perform call).1, c + (p.perform call).2.cursor) := by
  obtain ⟨fresh, hfresh, hcursor, hfront⟩ := Parser.exists_inFront (endMarked_of_ofTokens h)
  rw [h] at hfresh
  cases hfresh
  have hstands : (p.shift c).StandsAt tokens (c + p.ahead.length) := by
    obtain ⟨later, hlater⟩ := hfront.stands
    rw [hcursor, List.drop_zero] at hlater
    refine ⟨by simp [hcursor], ⟨later, ?_⟩, Nat.le_add_left _ _, hfront.ahead, hfront.stop⟩
    rw [Parser.shift_ahead, Nat.add_sub_cancel, hlater]
    rfl
  have hperform := perform_eq hstands call
  rwa [Parser.perform_shift, Parser.shift_cursor, Parser.shift_cursor, hcursor, Nat.add_zero] at hperform

end Indexed

/-! ### Sessions -/

/-- A sequence that agrees with a tail of another one up to its next end mark gives the same new parser. -/
theorem ofTokens_drop_congr {tokens others : List Token} {here place : Nat} (h : EndMarked tokens)
    (hhere : here < tokens.length) (hothers : EndMarked others)
    (hagree : (others.drop place).take ((tokensAhead (tokens.drop here)).length + 1) =
      (tokens.drop here).take ((tokensAhead (tokens.drop here)).length + 1)) :
    Parser.ofTokens (others.drop place) = Parser.ofTokens (tokens.drop here) := by
  have hplace : place < others.length := by
    have hlength := congrArg List.length hagree
    rw [List.length_take, List.length_take, List.length_drop, List.length_drop] at hlength
    omega
  rw [Parser.ofTokens, Parser.ofTokens, ofTokens_congr (h.drop hhere) (hothers.drop hplace) hagree]

/-- **A parser begins afresh anywhere.**  Let some steps be taken with a parser on a token sequence that ends
with an end mark, whether they fail or not.  The tokens from the cursor on make a new parser.  Each step of
the new parser gives what the step in the session gives, a formula or an error, and moves its cursor as
far, whether the step fails or not; and so do all steps after it.  Any sequence that agrees up to the next
end mark makes the same new parser.  The same is true of a parser that keeps the whole sequence and counts
an index. -/
theorem session_fresh {tokens : List Token} (h : EndMarked tokens) (calls : List Call) :
    ∃ p fresh, Parser.ofTokens tokens = .ok p ∧
      Parser.ofTokens (tokens.drop (p.after calls).cursor) = .ok fresh ∧ fresh.cursor = 0 ∧
      (∀ call, ((p.after calls).perform call).1 = (fresh.perform call).1 ∧
        ((p.after calls).perform call).2.cursor =
          (p.after calls).cursor + (fresh.perform call).2.cursor) ∧
      (∀ more, (p.after calls).performAll more =
        (fresh.performAll more).map fun step => (step.1, step.2.shift (p.after calls).cursor)) ∧
      Indexed.after tokens 0 calls = (p.after calls).cursor ∧
      (∀ call, Indexed.perform tokens (p.after calls).cursor call =
          (some (fresh.perform call).1, (p.after calls).cursor + (fresh.perform call).2.cursor) ∧
        Indexed.perform (tokens.drop (p.after calls).cursor) 0 call =
          (some (fresh.perform call).1, (fresh.perform call).2.cursor)) ∧
      ∀ others place, EndMarked others →
        (others.drop place).take ((tokensAhead (tokens.drop (p.after calls).cursor)).length + 1) =
          (tokens.drop (p.after calls).cursor).take
            ((tokensAhead (tokens.drop (p.after calls).cursor)).length + 1) →
        Parser.ofTokens (others.drop place) = .ok fresh ∧
        ∀ call, Indexed.perform others place call =
          (some (fresh.perform call).1, place + (fresh.perform call).2.cursor) := by
  obtain ⟨p, hp, hcursor, hfront⟩ := Parser.exists_inFront h
  have hafter := hfront.movesTo (p.movesTo_after calls)
  have hindex := Indexed.after_eq hfront.standsAt calls
  rw [hcursor] at hindex
  obtain ⟨fresh, hfresh, hstart, hshift⟩ := hafter.exists_fresh h
  have hperform (call : Call) : (p.after calls).perform call =
      ((fresh.perform call).1, (fresh.perform call).2.shift (p.after calls).cursor) := by
    rw [← Parser.perform_shift, ← hshift]
  refine ⟨p, fresh, hp, hfresh, hstart, ?steps, ?session, hindex, ?indexed, ?others⟩
  case steps =>
    intro call
    rw [hperform]
    exact ⟨rfl, rfl⟩
  case session =>
    intro more
    rw [← Parser.performAll_shift, ← hshift]
  case indexed =>
    intro call
    have hagain : Parser.ofTokens ((tokens.drop (p.after calls).cursor).drop 0) = .ok fresh := hfresh
    refine ⟨Indexed.perform_of_ofTokens hfresh call, ?_⟩
    rw [Indexed.perform_of_ofTokens hagain, Nat.zero_add]
  case others =>
    intro others place hothers hagree
    have hhere : (p.after calls).cursor < tokens.length :=
      (List.getElem?_eq_some_iff.1 hafter.stands.getElem?_cursor).1
    have hsame := (ofTokens_drop_congr h hhere hothers hagree).trans hfresh
    exact ⟨hsame, Indexed.perform_of_ofTokens hsame⟩

/-- A run that fails at a closing parenthesis has taken it, and a run from there reads the name that follows
as if it came first. -/
theorem session_fresh_after_failure :
    ∃ tokens : List Token,
      tokens.map Token.kind = [.name, .connective .conj, .openParen, .closeParen, .name, .endMark,
        .name, .endMark] ∧ EndMarked tokens ∧
      ∃ p fresh, Parser.ofTokens tokens = .ok p ∧ (p.after [.run true]).cursor = 4 ∧
        Parser.ofTokens (tokens.drop 4) = .ok fresh ∧
        (fresh.perform (.run true)).1 = .formula (.var "q") ∧
        ((p.after [.run true]).perform (.run true)).1 = .formula (.var "q") ∧
        ((p.after [.run true]).perform (.run true)).2.cursor = 4 + (fresh.perform (.run true)).2.cursor := by
  let tokens : List Token :=
    [⟨.name, "p", 0⟩, ⟨.connective .conj, "∧", 1⟩, ⟨.openParen, "(", 2⟩, ⟨.closeParen, ")", 3⟩,
      ⟨.name, "q", 4⟩, ⟨.endMark, "", 5⟩, ⟨.name, "r", 6⟩, ⟨.endMark, "", 7⟩]
  have hend : EndMarked tokens := ⟨⟨.endMark, "", 7⟩, rfl, rfl⟩
  obtain ⟨p, fresh, hp, hfresh, _, hsteps, _⟩ := session_fresh hend [.run true]
  have hstart : Parser.ofTokens tokens = .ok ⟨0, tokens.take 5, ⟨.endMark, "", 5⟩⟩ := by decide
  have hcursor : (Parser.after ⟨0, tokens.take 5, ⟨.endMark, "", 5⟩⟩ [.run true]).cursor = 4 := by
    decide +kernel
  have htail : Parser.ofTokens (tokens.drop 4) = .ok ⟨0, [⟨.name, "q", 4⟩], ⟨.endMark, "", 5⟩⟩ := by
    decide
  rw [hstart] at hp
  cases hp
  rw [hcursor, htail] at hfresh
  cases hfresh
  obtain ⟨hsame, hmoves⟩ := hsteps (.run true)
  rw [hcursor] at hmoves
  have hreads : (Parser.perform ⟨0, [⟨.name, "q", 4⟩], ⟨.endMark, "", 5⟩⟩ (.run true)).1 =
      .formula (.var "q") := by
    decide +kernel
  exact ⟨tokens, rfl, hend, _, _, hstart, hcursor, htail, hreads, hsame.trans hreads, hmoves⟩

end Propositional
