import Propositional.Proofs.Formula.FreshStart

/-!
# Chains of any kind

A chain reads an operand; as long as a token of its kind comes next, it takes the token, reads a further
operand and joins both.  The kind may be any kind of token and the operands those of any level, so that the
chains of the grammar are four of many.

* `Parser.perform_read_eq_formula_iff`, `Parser.perform_read_eq_failed_iff` — reading an operand as a step;
* `Parser.Further`, `Parser.Operands` — operands that are read one after the other, each but the first behind
  a token of the kind; `Parser.Further.initial` — there is only one way to read them, so of two such readings
  one goes further; `Parser.Operands.cursor_lt` — each operand takes a token, and so does each token between
  them;
* `Parser.Folds.unique`, `Parser.perform_readChain_eq_iff` — a chain of any kind is a loop, and the loop ends in
  one way;
* `Parser.folds_connective_iff`, `Parser.folds_iff_of_connective?_eq_none` — where the loop ends for a
  connective, and for any other kind; `Parser.perform_readChain_connective_iff`,
  `Parser.perform_readChain_other_iff` — and what the chain gives then;
* `Level.read_nil`, `Parser.InFront.perform_read_endMark` — no operand is found at the end mark;
* `Parser.Chains` — what a chain does; `readChain_folds_operands` — and does so everywhere in a session.
-/

namespace Propositional

namespace Parser

variable {p q r : Parser} {kind : TokenKind} {level : Level} {c : Connective}

/-! ### Reading as a step -/

theorem perform_read_eq_formula_iff {f : Formula} :
    p.perform (.read level) = (.formula f, q) ↔ p.read level = (.ok f, q) := by
  rcases hread : p.read level with ⟨cause | g, s⟩ <;>
    simp [perform, hread, Outcome.ofResult, Except.mapError]

theorem perform_read_eq_failed_iff {e : CallError} :
    p.perform (.read level) = (.failed e, q) ↔
      ∃ cause, p.read level = (.error cause, q) ∧ e = .ofReading cause := by
  rcases hread : p.read level with ⟨cause | g, s⟩
  · constructor
    · intro h
      simp only [perform, hread] at h
      cases h
      exact ⟨cause, rfl, rfl⟩
    · rintro ⟨_, heq, rfl⟩
      cases heq
      simp only [perform, hread]
      rfl
  · simp [perform, hread, Outcome.ofResult, Except.mapError]

theorem perform_readChain (p : Parser) (kind : TokenKind) (level : Level) :
    p.perform (.readChain kind level) =
      (.ofResult (p.readChain kind level).1, (p.readChain kind level).2) := rfl

/-! ### Operands -/

/-- Operands that are read one after the other, each behind a token of the kind. -/
inductive Further (kind : TokenKind) (level : Level) : Parser → List Formula → Parser → Prop
  | none {p : Parser} : Further kind level p [] p
  | more {p q r : Parser} {operand : Formula} {later : List Formula} (sign : p.peek.kind = kind)
      (read : p.consume.2.perform (.read level) = (.formula operand, q))
      (others : Further kind level q later r) : Further kind level p (operand :: later) r

/-- A first operand, and further ones behind it. -/
def Operands (kind : TokenKind) (level : Level) (p : Parser) (first : Formula)
    (further : List Formula) (q : Parser) : Prop :=
  ∃ r, p.perform (.read level) = (.formula first, r) ∧ r.Further kind level further q

/-- The first operand that cannot be read: it fails with the error `e`, and the parser stands at `q` then. -/
inductive OperandFails (kind : TokenKind) (level : Level) (p : Parser) (e : CallError) (q : Parser) : Prop
  | first (read : p.perform (.read level) = (.failed e, q))
  | further {first : Formula} {further : List Formula} {r : Parser}
      (earlier : p.Operands kind level first further r) (sign : r.peek.kind = kind)
      (read : r.consume.2.perform (.read level) = (.failed e, q))

/-- If one reading of further operands ends where no token of the kind comes next, any other reading gives
the first ones of them. -/
theorem Further.initial {further more : List Formula} (h : p.Further kind level further q)
    (hends : q.peek.kind ≠ kind) (hmore : p.Further kind level more r) : more <+: further := by
  induction h generalizing more with
  | none =>
    cases hmore with
    | none => exact List.prefix_refl []
    | more sign _ _ => exact absurd sign hends
  | more _ read _ ih =>
    cases hmore with
    | none => exact List.nil_prefix
    | more _ read' others =>
      rw [read] at read'
      cases read'
      exact List.cons_prefix_cons.2 ⟨rfl, ih hends others⟩

/-- A further operand takes a token, and so does the sign in front of it. -/
theorem cursor_lt_of_operand {operand : Formula}
    (h : p.consume.2.perform (.read level) = (.formula operand, q)) : p.cursor + 1 < q.cursor := by
  have hread := perform_read_eq_formula_iff.1 h
  obtain ⟨rest, heq, _, _⟩ := exists_of_read_eq hread
  have htaken : rest.length < p.ahead.tail.length := Level.read_advances _ level _ _ _ heq
  have hcursor : p.consume.2.cursor = p.cursor + (p.ahead.length - p.ahead.tail.length) := rfl
  have hlater := cursor_lt_of_read hread
  rw [List.length_tail] at htaken hcursor
  omega

theorem Further.cursor_le {further : List Formula} (h : p.Further kind level further q) :
    p.cursor + 2 * further.length ≤ q.cursor := by
  induction h with
  | none => exact Nat.le_refl _
  | more _ read _ ih =>
    have hoperand := cursor_lt_of_operand read
    rw [List.length_cons]
    omega

theorem Operands.cursor_lt {first : Formula} {further : List Formula}
    (h : p.Operands kind level first further q) : p.cursor + 2 * further.length < q.cursor := by
  obtain ⟨r, read, hfurther⟩ := h
  have hfirst := cursor_lt_of_read (perform_read_eq_formula_iff.1 read)
  have hlater := hfurther.cursor_le
  omega

theorem Further.movesTo {further : List Formula} (h : p.Further kind level further q) : p.MovesTo q := by
  induction h with
  | none => exact .refl _
  | more _ read _ ih => exact (movesTo_of_operand (perform_read_eq_formula_iff.1 read)).trans ih

theorem Operands.movesTo {first : Formula} {further : List Formula}
    (h : p.Operands kind level first further q) : p.MovesTo q := by
  obtain ⟨r, read, hfurther⟩ := h
  exact (movesTo_of_read (perform_read_eq_formula_iff.1 read)).trans hfurther.movesTo

/-! ### The loop -/

/-- The rounds of a chain end in one way. -/
theorem Folds.unique {left : Formula} {result result' : Except CallError Formula} {q' : Parser}
    (h : Folds kind level left p result q) (h' : Folds kind level left p result' q') :
    result = result' ∧ q = q' := by
  induction h with
  | done ends => cases h' <;> simp_all
  | unread sign operand => cases h' <;> simp_all
  | unjoined sign operand node => cases h' <;> simp_all
  | again sign operand node _ ih =>
    cases h' with
    | again _ operand' node' later' =>
      rw [operand] at operand'
      cases operand'
      rw [node] at node'
      cases node'
      exact ih later'
    | _ => simp_all

/-- A chain of any kind fails with its first operand, or else does what its rounds do behind it. -/
theorem perform_readChain_eq_iff (hstop : p.stop.kind = .endMark) {outcome : Outcome} :
    p.perform (.readChain kind level) = (outcome, q) ↔
      (∃ e, p.perform (.read level) = (.failed e, q) ∧ outcome = .failed e) ∨
      ∃ first r result, p.perform (.read level) = (.formula first, r) ∧
        Folds kind level first r result q ∧ outcome = .ofResult result := by
  rw [perform_readChain]
  constructor
  · intro h
    cases h
    rcases hread : p.read level with ⟨cause | first, r⟩
    · rw [readChain_of_read_error hread]
      exact .inl ⟨_, perform_read_eq_failed_iff.2 ⟨cause, hread, rfl⟩, rfl⟩
    · exact .inr ⟨first, r, _, perform_read_eq_formula_iff.2 hread,
        folds_readChain hstop kind level hread, rfl⟩
  · rintro (⟨e, read, rfl⟩ | ⟨first, r, result, read, hfolds, rfl⟩)
    · obtain ⟨cause, hread, rfl⟩ := perform_read_eq_failed_iff.1 read
      rw [readChain_of_read_error hread]
      rfl
    · have hread := perform_read_eq_formula_iff.1 read
      obtain ⟨hresult, hq⟩ := (folds_readChain hstop kind level hread).unique hfolds
      rw [hresult, hq]

/-! ### Chains of a connective -/

/-- Behind further operands the rounds go on from what these give. -/
theorem Further.folds {further : List Formula} {result : Except CallError Formula}
    (h : p.Further (.connective c) level further r) {left : Formula}
    (hlater : Folds (.connective c) level (further.foldl (.binary c) left) r result q) :
    Folds (.connective c) level left p result q := by
  induction h generalizing left with
  | none => exact hlater
  | more sign read _ ih => exact .again sign (perform_read_eq_formula_iff.1 read) rfl (ih hlater)

/-- The rounds of a connective read operands until no further connective follows, or one of them fails. -/
theorem folds_connective_iff {left : Formula} {result : Except CallError Formula} :
    Folds (.connective c) level left p result q ↔
      (∃ further, p.Further (.connective c) level further q ∧ q.peek.kind ≠ .connective c ∧
        result = .ok (further.foldl (.binary c) left)) ∨
      ∃ further r e, p.Further (.connective c) level further r ∧ r.peek.kind = .connective c ∧
        r.consume.2.perform (.read level) = (.failed e, q) ∧ result = .error e := by
  constructor
  · intro h
    induction h with
    | done ends => exact .inl ⟨[], .none, ends, rfl⟩
    | unread sign operand =>
      exact .inr ⟨[], _, _, .none, sign, perform_read_eq_failed_iff.2 ⟨_, operand, rfl⟩, rfl⟩
    | unjoined _ _ node => cases node
    | again sign operand node _ ih =>
      cases node
      have read := perform_read_eq_formula_iff.2 operand
      rcases ih with ⟨further, hfurther, hends, rfl⟩ | ⟨further, r, e, hfurther, hrest⟩
      · exact .inl ⟨_ :: further, .more sign read hfurther, hends, rfl⟩
      · exact .inr ⟨_ :: further, r, e, .more sign read hfurther, hrest⟩
  · rintro (⟨further, hfurther, hends, rfl⟩ | ⟨further, r, e, hfurther, sign, read, rfl⟩)
    · exact hfurther.folds (.done hends)
    · obtain ⟨cause, hread, rfl⟩ := perform_read_eq_failed_iff.1 read
      exact hfurther.folds (.unread sign hread)

/-! ### Chains of other kinds -/

/-- Of any other kind there is one round at most, and what it reads cannot be joined. -/
theorem folds_iff_of_connective?_eq_none (hkind : kind.connective? = none) {left : Formula}
    {result : Except CallError Formula} :
    Folds kind level left p result q ↔
      (p.peek.kind ≠ kind ∧ result = .ok left ∧ q = p) ∨
      (p.peek.kind = kind ∧
        ((∃ e, p.consume.2.perform (.read level) = (.failed e, q) ∧ result = .error e) ∨
        ∃ second, p.consume.2.perform (.read level) = (.formula second, q) ∧
          result = .error (.node (.notBinary kind)))) := by
  have hnode (right : Formula) : Formula.connect kind left right = .error (.notBinary kind) := by
    rw [Formula.connect, hkind]
  constructor
  · intro h
    cases h with
    | done ends => exact .inl ⟨ends, rfl, rfl⟩
    | unread sign operand =>
      exact .inr ⟨sign, .inl ⟨_, perform_read_eq_failed_iff.2 ⟨_, operand, rfl⟩, rfl⟩⟩
    | unjoined sign operand node =>
      rw [hnode] at node
      cases node
      exact .inr ⟨sign, .inr ⟨_, perform_read_eq_formula_iff.2 operand, rfl⟩⟩
    | again _ _ node _ =>
      rw [hnode] at node
      cases node
  · rintro (⟨ends, rfl, rfl⟩ | ⟨sign, ⟨e, read, rfl⟩ | ⟨second, read, rfl⟩⟩)
    · exact .done ends
    · obtain ⟨cause, hread, rfl⟩ := perform_read_eq_failed_iff.1 read
      exact .unread sign hread
    · exact .unjoined sign (perform_read_eq_formula_iff.1 read) (hnode second)

end Parser

/-! ### At the end mark -/

/-- In front of the end mark no level finds an operand. -/
theorem Level.read_nil (stop : Token) (level : Level) :
    level.read stop [] = ⟨.error ⟨.operandExpected none, some stop.position⟩, []⟩ :=
  Level.reader_induction
    (motive := fun _ reader => reader [] = ⟨.error ⟨.operandExpected none, some stop.position⟩, []⟩)
    rfl rfl (fun _ hoperand => Reader.chain_fail hoperand) level

namespace Parser.InFront

variable {tokens : List Token} {p : Parser}

/-- At the end mark nothing is ahead. -/
theorem ahead_eq_nil (h : p.InFront tokens) (hmark : p.peek.kind = .endMark) : p.ahead = [] := by
  cases hahead : p.ahead with
  | nil => rfl
  | cons t ts =>
    rw [peek, hahead] at hmark
    exact absurd hmark (h.ahead t (by simp [hahead]))

/-- There the end mark is not taken, and no level finds an operand. -/
theorem perform_read_endMark (h : p.InFront tokens) (hmark : p.peek.kind = .endMark) (level : Level) :
    p.consume.2 = p ∧
      p.perform (.read level) =
        (.failed (.parse ⟨.operandExpected none, some p.peek.position⟩), p) := by
  have hahead := h.ahead_eq_nil hmark
  have hpeek : p.peek = p.stop := by rw [peek, hahead, List.headD_nil]
  have hmove : p.moveTo [] = p := by
    rw [← hahead, moveTo_ahead]
  constructor
  · rw [consume, hahead, List.tail_nil, hmove]
  · refine perform_read_eq_failed_iff.2 ⟨⟨.operandExpected none, some p.stop.position⟩, ?_, ?_⟩
    · rw [read, apply, hahead, Level.read_nil, hmove]
    · rw [hpeek]
      rfl

end Parser.InFront

namespace Parser

/-! ### What a chain does -/

/-- What a chain of a kind over a level does from a parser on a token sequence. -/
structure Chains (tokens : List Token) (kind : TokenKind) (level : Level) (p : Parser) : Prop where
  /-- Each operand takes a token, and so does each sign between two of them, so that a chain comes to its end
  before the tokens do. -/
  bounded : ∀ first further q, p.Operands kind level first further q →
    p.cursor + 2 * further.length < q.cursor ∧ q.cursor < tokens.length
  /-- A loop over the tokens by index that takes one round after another ends, with the same outcome and in
  the same place. -/
  loop : Indexed.perform tokens p.cursor (.readChain kind level) =
    (some (p.perform (.readChain kind level)).1, (p.perform (.readChain kind level)).2.cursor)
  /-- Operands behind which no token of the kind comes next are all that can be read. -/
  maximal : ∀ first further q, p.Operands kind level first further q → q.peek.kind ≠ kind →
    ∀ other more r, p.Operands kind level other more r → other = first ∧ more <+: further
  /-- A chain of a connective gives the operands folded to the left, and stops where the connective does not
  come next; or the first operand that fails decides. -/
  connective : ∀ c, kind = .connective c → ∀ outcome q,
    p.perform (.readChain kind level) = (outcome, q) ↔
      (∃ first further, p.Operands kind level first further q ∧ q.peek.kind ≠ kind ∧
        outcome = .formula (further.foldl (.binary c) first)) ∨
      ∃ e, p.OperandFails kind level e q ∧ outcome = .failed e
  /-- A chain of any other kind gives its only operand, unless a token of the kind comes next; then it fails
  with the second operand, or behind it for want of a node. -/
  other : kind.connective? = none → ∀ outcome q,
    p.perform (.readChain kind level) = (outcome, q) ↔
      (∃ e, p.perform (.read level) = (.failed e, q) ∧ outcome = .failed e) ∨
      ∃ first r, p.perform (.read level) = (.formula first, r) ∧
        ((r.peek.kind ≠ kind ∧ outcome = .formula first ∧ q = r) ∨
        (r.peek.kind = kind ∧
          ((∃ e, r.consume.2.perform (.read level) = (.failed e, q) ∧ outcome = .failed e) ∨
          ∃ second, r.consume.2.perform (.read level) = (.formula second, q) ∧
            outcome = .failed (.node (.notBinary kind)))))
  /-- At the end mark there is no second operand, and the mark is not taken. -/
  atEndMark : kind = .endMark → ∀ first r, p.perform (.read level) = (.formula first, r) →
    r.peek.kind = .endMark →
      r.consume.2.perform (.read level) =
        (.failed (.parse ⟨.operandExpected none, some r.peek.position⟩), r) ∧
      p.perform (.readChain kind level) =
        (.failed (.parse ⟨.operandExpected none, some r.peek.position⟩), r)

variable {tokens : List Token} {p : Parser} {kind : TokenKind} {level : Level}

/-- The outcome of a chain of a connective. -/
theorem perform_readChain_connective_iff (hstop : p.stop.kind = .endMark) {c : Connective}
    {outcome : Outcome} {q : Parser} :
    p.perform (.readChain (.connective c) level) = (outcome, q) ↔
      (∃ first further, p.Operands (.connective c) level first further q ∧
        q.peek.kind ≠ .connective c ∧ outcome = .formula (further.foldl (.binary c) first)) ∨
      ∃ e, p.OperandFails (.connective c) level e q ∧ outcome = .failed e := by
  rw [perform_readChain_eq_iff hstop]
  constructor
  · rintro (⟨e, read, rfl⟩ | ⟨first, r, result, read, hfolds, rfl⟩)
    · exact .inr ⟨e, .first read, rfl⟩
    · rcases folds_connective_iff.1 hfolds with ⟨further, hfurther, hends, rfl⟩ |
        ⟨further, s, e, hfurther, sign, hfails, rfl⟩
      · exact .inl ⟨first, further, ⟨r, read, hfurther⟩, hends, rfl⟩
      · exact .inr ⟨e, .further ⟨r, read, hfurther⟩ sign hfails, rfl⟩
  · rintro (⟨first, further, ⟨r, read, hfurther⟩, hends, rfl⟩ | ⟨e, hfails, rfl⟩)
    · exact .inr ⟨first, r, _, read, folds_connective_iff.2 (.inl ⟨further, hfurther, hends, rfl⟩), rfl⟩
    · cases hfails with
      | first read => exact .inl ⟨e, read, rfl⟩
      | further earlier sign hfails =>
        obtain ⟨r, read, hfurther⟩ := earlier
        exact .inr ⟨_, r, _, read,
          folds_connective_iff.2 (.inr ⟨_, _, e, hfurther, sign, hfails, rfl⟩), rfl⟩

/-- The outcome of a chain of any other kind. -/
theorem perform_readChain_other_iff (hstop : p.stop.kind = .endMark) (hkind : kind.connective? = none)
    {outcome : Outcome} {q : Parser} :
    p.perform (.readChain kind level) = (outcome, q) ↔
      (∃ e, p.perform (.read level) = (.failed e, q) ∧ outcome = .failed e) ∨
      ∃ first r, p.perform (.read level) = (.formula first, r) ∧
        ((r.peek.kind ≠ kind ∧ outcome = .formula first ∧ q = r) ∨
        (r.peek.kind = kind ∧
          ((∃ e, r.consume.2.perform (.read level) = (.failed e, q) ∧ outcome = .failed e) ∨
          ∃ second, r.consume.2.perform (.read level) = (.formula second, q) ∧
            outcome = .failed (.node (.notBinary kind))))) := by
  rw [perform_readChain_eq_iff hstop]
  refine or_congr Iff.rfl (exists_congr fun first => exists_congr fun r => ?_)
  simp only [folds_iff_of_connective?_eq_none hkind]
  constructor
  · rintro ⟨result, read, ⟨hends, rfl, hq⟩ | ⟨sign, ⟨e, hfails, rfl⟩ | ⟨second, hsecond, rfl⟩⟩, rfl⟩
    · exact ⟨read, .inl ⟨hends, rfl, hq⟩⟩
    · exact ⟨read, .inr ⟨sign, .inl ⟨e, hfails, rfl⟩⟩⟩
    · exact ⟨read, .inr ⟨sign, .inr ⟨second, hsecond, rfl⟩⟩⟩
  · rintro ⟨read, ⟨hends, rfl, hq⟩ | ⟨sign, ⟨e, hfails, rfl⟩ | ⟨second, hsecond, rfl⟩⟩⟩
    · exact ⟨_, read, .inl ⟨hends, rfl, hq⟩, rfl⟩
    · exact ⟨_, read, .inr ⟨sign, .inl ⟨e, hfails, rfl⟩⟩, rfl⟩
    · exact ⟨_, read, .inr ⟨sign, .inr ⟨second, hsecond, rfl⟩⟩, rfl⟩

/-- In front of the end mark each chain does so. -/
theorem InFront.chains (h : p.InFront tokens) (kind : TokenKind) (level : Level) :
    p.Chains tokens kind level where
  bounded := by
    intro first further q hoperands
    have hq := (h.movesTo hoperands.movesTo).stands.getElem?_cursor
    exact ⟨hoperands.cursor_lt, (List.getElem?_eq_some_iff.1 hq).1⟩
  loop := Indexed.perform_eq h.standsAt _
  maximal := by
    rintro first further q ⟨r, read, hfurther⟩ hends other more s ⟨r', read', hmore⟩
    rw [read] at read'
    cases read'
    exact ⟨rfl, hfurther.initial hends hmore⟩
  connective := by
    rintro c rfl outcome q
    exact perform_readChain_connective_iff h.stop
  other := fun hkind _ _ => perform_readChain_other_iff h.stop hkind
  atEndMark := by
    rintro rfl first r read hmark
    have hr := h.movesTo (movesTo_of_read (perform_read_eq_formula_iff.1 read))
    obtain ⟨htaken, hfails⟩ := hr.perform_read_endMark hmark level
    have hsecond : r.consume.2.perform (.read level) =
        (.failed (.parse ⟨.operandExpected none, some r.peek.position⟩), r) := by
      rw [htaken, hfails]
    exact ⟨hsecond, (perform_readChain_other_iff h.stop rfl).2
      (.inr ⟨first, r, read, .inr ⟨hmark, .inl ⟨_, hsecond, rfl⟩⟩⟩)⟩

end Parser

/-- **Chains of any kind.**  On a token sequence that ends with an end mark, and may have others before, a
parser can be set up, and wherever the steps of a session have brought it, whether they failed or not, a chain
of any kind over any level comes to an end.  If the kind is a connective, the chain reads as many operands as
there are, with one token of the kind between two of them, and folds them to the left, unless an operand
fails.  If it is no connective, the chain gives its first operand, unless a token of the kind follows; then
it fails with the second operand, or behind it for want of a node.  At the end mark the second operand always
fails.  The binary levels of the grammar are four of these chains. -/
theorem readChain_folds_operands {tokens : List Token} (h : EndMarked tokens) :
    ∃ start, Parser.ofTokens tokens = .ok start ∧ start.cursor = 0 ∧
      ∀ calls : List Call,
        (∀ (kind : TokenKind) (level : Level), (start.after calls).Chains tokens kind level) ∧
        ∀ c : Connective, (start.after calls).perform (.read (.binary c)) =
          (start.after calls).perform (.readChain (.connective c) c.operandLevel) := by
  obtain ⟨start, hstart, hcursor, hfront⟩ := Parser.exists_inFront h
  refine ⟨start, hstart, hcursor, fun calls => ⟨fun kind level => ?_, fun c => ?_⟩⟩
  · exact (hfront.movesTo (start.movesTo_after calls)).chains kind level
  · exact (start.after calls).perform_read_binary c

/-- A chain of names takes the second name as a sign and cannot join the first and the third.  From the third
on a chain of conjunctions folds all operands up to the end mark; and behind the first conjunction a chain whose
sign is the end mark finds no second operand there, though other tokens follow. -/
theorem readChain_folds_operands_session :
    ∃ tokens : List Token,
      tokens.map Token.kind = [.name, .name, .name, .connective .conj, .negation, .name,
        .connective .conj, .name, .endMark, .name, .endMark] ∧ EndMarked tokens ∧
      ∃ start, Parser.ofTokens tokens = .ok start ∧
        (∃ q, start.perform (.readChain .name .primary) = (.failed (.node (.notBinary .name)), q) ∧
          q.cursor = 3) ∧
        (∃ q, (start.after [.consume, .consume]).perform (.readChain (.connective .conj) .negation) =
            (.formula (.binary .conj (.binary .conj (.var "r") (.neg (.var "s"))) (.var "t")), q) ∧
          q.cursor = 8) ∧
        ∃ q, (start.after [.readChain .name .primary, .consume]).perform
              (.readChain .endMark (.binary .conj)) =
            (.failed (.parse ⟨.operandExpected none, some 8⟩), q) ∧ q.cursor = 8 := by
  let tokens : List Token :=
    [⟨.name, "p", 0⟩, ⟨.name, "q", 1⟩, ⟨.name, "r", 2⟩, ⟨.connective .conj, "∧", 3⟩, ⟨.negation, "¬", 4⟩,
      ⟨.name, "s", 5⟩, ⟨.connective .conj, "∧", 6⟩, ⟨.name, "t", 7⟩, ⟨.endMark, "", 8⟩, ⟨.name, "u", 9⟩,
      ⟨.endMark, "", 10⟩]
  let place (n : Nat) : Parser := ⟨n, (tokens.take 8).drop n, ⟨.endMark, "", 8⟩⟩
  have hend : EndMarked tokens := ⟨⟨.endMark, "", 10⟩, rfl, rfl⟩
  obtain ⟨start, hstart, _, hchains⟩ := readChain_folds_operands hend
  have hplace : Parser.ofTokens tokens = .ok (place 0) := by decide
  rw [hplace] at hstart
  cases hstart
  have hsecond : (place 0).after [.consume, .consume] = place 2 := by decide
  have hthird : (place 0).after [.readChain .name .primary, .consume] = place 4 := by decide +kernel
  have hnames := (hchains []).1 .name .primary
  have hconj := (hchains [.consume, .consume]).1 (.connective .conj) .negation
  have hmark := (hchains [.readChain .name .primary, .consume]).1 .endMark (.binary .conj)
  rw [hsecond] at hconj
  rw [hthird] at hmark
  refine ⟨tokens, rfl, hend, place 0, hplace, ⟨place 3, ?names, rfl⟩, ⟨place 8, ?conj, rfl⟩,
    ⟨place 8, ?mark, rfl⟩⟩
  case names =>
    refine (hnames.other rfl _ _).2 (.inr ⟨.var "p", place 1, by decide +kernel, .inr ⟨rfl, .inr ?_⟩⟩)
    exact ⟨.var "r", by decide +kernel, rfl⟩
  case conj =>
    rw [hsecond]
    refine (hconj.connective .conj rfl _ _).2 (.inl ⟨.var "r", [.neg (.var "s"), .var "t"], ?_, ?_, rfl⟩)
    · exact ⟨place 3, by decide +kernel,
        .more rfl (q := place 6) (by decide +kernel) (.more rfl (by decide +kernel) .none)⟩
    · decide
  case mark =>
    rw [hthird]
    exact (hmark.atEndMark rfl (.binary .conj (.neg (.var "s")) (.var "t")) (place 8)
      (by decide +kernel) rfl).2

end Propositional
