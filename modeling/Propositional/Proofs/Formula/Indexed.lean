import Propositional.Proofs.Formula.Cursor

/-!
# Parsing by index

A parser need not keep the tokens that are still ahead.  It can leave the whole sequence as it is and keep
the index of the next token: it looks tokens up, counts the index up, and fails with the index where it is.
Nothing but the place of the end mark keeps it inside the sequence.

* `Walk` — something that is done with an index, and may fail; `Walk.bind_ok`, `Walk.bind_error` — one thing
  after another;
* `Indexed.peek`, `Indexed.consume` — look a token up, take it; `Indexed.primary`, `Indexed.negation`,
  `Indexed.chain` — the readers of the levels, with loops that take one round after another;
* `Indexed.perform` — the steps by name; `Indexed.performAll`, `Indexed.after` — several of them;
* `StandBefore` — where tokens stand in a sequence, in front of an end mark;
* `Indexed.Follows` — a reader by index does what a reader of the tokens ahead does; one lemma for each
  reader, `Indexed.expression_follows`, `Indexed.read_follows`;
* `Indexed.perform_eq` — so each step does; `Indexed.performAll_eq`, `Indexed.after_eq` — and so do several.
-/

namespace Propositional

/-- Why something that is done with an index fails. -/
inductive IndexFault where
  /-- No token stands at the index. -/
  | outside
  /-- A loop takes more rounds than there are tokens. -/
  | endless
  | parse (e : ParseError)
  | node (e : NodeError)
  deriving DecidableEq, Repr

/-- Something that is done with an index.  Where it fails the index stays as it is. -/
abbrev Walk (α : Type) := EStateM IndexFault Nat α

namespace Walk

variable {α β : Type} {walk : Walk α} {next : α → Walk β} {c d : Nat}

theorem bind_ok {a : α} (h : walk c = .ok a d) : (walk >>= next) c = next a d := by
  show EStateM.bind walk next c = next a d
  rw [EStateM.bind, h]

theorem bind_error {e : IndexFault} (h : walk c = .error e d) : (walk >>= next) c = .error e d := by
  show EStateM.bind walk next c = .error e d
  rw [EStateM.bind, h]

end Walk

/-! ### Readers by index -/

namespace Indexed

section Readers

variable (tokens : List Token)

/-- The token at the index. -/
def peek : Walk Token := do
  match tokens[← get]? with
  | some t => return t
  | none => throw .outside

/-- Take the token at the index, and go on to the next one unless it is an end mark. -/
def consume : Walk Token := do
  let t ← peek tokens
  if t.kind ≠ .endMark then modify (· + 1)
  return t

/-- Close the group that was opened by the token `opening`. -/
def close (opening : Token) (inner : Formula) : Walk Formula := do
  let closing ← consume tokens
  if closing.kind = .closeParen then return .group inner
  else throw (.parse ⟨.unclosed opening.position, some closing.position⟩)

/-- Read a primary; `inside` reads what stands in parentheses. -/
def primary (inside : Walk Formula) : Walk Formula := do
  let t ← consume tokens
  match t.kind with
  | .const value => return .const value
  | .name => return .var t.lexeme
  | .openParen =>
    let inner ← inside
    close tokens t inner
  | .endMark => throw (.parse ⟨.operandExpected none, some t.position⟩)
  | _ => throw (.parse ⟨.operandExpected (some t.lexeme), some t.position⟩)

/-- Take negation signs and count them, in fewer rounds than `bound`. -/
def signs : Nat → Walk Nat
  | 0 => throw .endless
  | bound + 1 => do
    let t ← peek tokens
    if t.kind = .negation then
      let _ ← consume tokens
      let count ← signs bound
      return count + 1
    else return 0

/-- Read negation signs and the primary after them. -/
def negation (inside : Walk Formula) : Walk Formula := do
  let count ← signs tokens (tokens.length + 1)
  let f ← primary tokens inside
  return f.negTimes count

/-- Go on after the formula `left` with further operands, as long as a token of the kind stands in front of
them, in fewer rounds than `bound`. -/
def rounds (kind : TokenKind) (operand : Walk Formula) : Nat → Formula → Walk Formula
  | 0, _ => throw .endless
  | bound + 1, left => do
    let t ← peek tokens
    if t.kind = kind then
      let _ ← consume tokens
      let right ← operand
      match Formula.connect kind left right with
      | .ok f => rounds kind operand bound f
      | .error e => throw (.node e)
    else return left

/-- Read operands with tokens of the kind between them and fold them to the left. -/
def chain (kind : TokenKind) (operand : Walk Formula) : Walk Formula := do
  let first ← operand
  rounds tokens kind operand (tokens.length + 1) first

/-- Read the levels of the given connectives, the loosest first. -/
def binaryLevels (base : Walk Formula) : List Connective → Walk Formula
  | [] => base
  | c :: tighter => chain tokens (.connective c) (binaryLevels base tighter)

/-- Read a formula of a given level. -/
def level (inside : Walk Formula) : Level → Walk Formula
  | .primary => primary tokens inside
  | level => binaryLevels tokens (negation tokens inside) level.connectives

/-- Read a formula of the loosest level with fewer than `depth` levels of parentheses.  Behind one level too
many the token at the index is named. -/
def expression : Nat → Walk Formula
  | 0 => do
    let t ← peek tokens
    throw (.parse ⟨.tooDeep, some t.position⟩)
  | depth + 1 => level tokens (expression depth) .loosest

/-- Read a formula of a given level, with parentheses nested up to the limit. -/
def read (l : Level) : Walk Formula := level tokens (expression tokens nestingLimit) l

/-- Read a whole formula; in strict mode nothing but an end mark may follow. -/
def run (strict : Bool) : Walk Formula := do
  let f ← read tokens .loosest
  if strict then
    let t ← peek tokens
    if t.kind ≠ .endMark then throw (.parse ⟨.trailing t.lexeme, some t.position⟩)
  return f

/-- What a step gives, and the index after it.  There is no outcome where the index is outside of the
sequence or a loop does not end. -/
def outcome (wrap : ParseError → CallError) : EStateM.Result IndexFault Nat Formula → Option Outcome × Nat
  | .ok f c => (some (.formula f), c)
  | .error (.parse e) c => (some (.failed (wrap e)), c)
  | .error (.node e) c => (some (.failed (.node e)), c)
  | .error _ c => (none, c)

/-- What a step that gives a token gives, and the index after it. -/
def tokenOutcome : EStateM.Result IndexFault Nat Token → Option Outcome × Nat
  | .ok t c => (some (.token t), c)
  | .error _ c => (none, c)

/-- Take one step. -/
def perform (c : Nat) : Call → Option Outcome × Nat
  | .peek => tokenOutcome (peek tokens c)
  | .consume => tokenOutcome (consume tokens c)
  | .run strict => outcome .parse (run tokens strict c)
  | .read l => outcome .ofReading (read tokens l c)
  | .readChain kind l => outcome .ofReading (chain tokens kind (read tokens l) c)

/-- Take steps one after the other; each outcome comes with the index after the step. -/
def performAll (c : Nat) : List Call → List (Option Outcome × Nat)
  | [] => []
  | call :: calls =>
    let step := perform tokens c call
    step :: performAll step.2 calls

/-- The index after some steps. -/
def after (c : Nat) (calls : List Call) : Nat :=
  calls.foldl (fun d call => (perform tokens d call).2) c

end Readers

end Indexed

/-! ### Tokens in front of an end mark -/

/-- In the sequence the end mark `stop` has the index `place`, and the tokens `ts`, none of which is an end
mark, stand in front of it. -/
structure StandBefore (tokens : List Token) (stop : Token) (place : Nat) (ts : List Token) : Prop where
  behind : ∃ later, tokens.drop (place - ts.length) = ts ++ stop :: later
  fits : ts.length ≤ place
  unmarked : ∀ t ∈ ts, t.kind ≠ .endMark
  mark : stop.kind = .endMark

namespace StandBefore

variable {tokens : List Token} {stop : Token} {place : Nat} {ts rest : List Token}

/-- So do the last ones of them. -/
theorem of_suffix (h : StandBefore tokens stop place ts) (hrest : rest <:+ ts) :
    StandBefore tokens stop place rest := by
  obtain ⟨later, hlater⟩ := h.behind
  have hle := hrest.length_le
  have hfits := h.fits
  obtain ⟨taken, rfl⟩ := hrest
  rw [List.length_append] at hle hfits hlater
  refine ⟨⟨later, ?_⟩, by omega, fun t ht => h.unmarked t (List.mem_append_right taken ht), h.mark⟩
  have hplace : place - rest.length = place - (taken.length + rest.length) + taken.length := by omega
  rw [hplace, ← List.drop_drop, hlater, List.append_assoc, List.drop_left]

theorem tail {t : Token} (h : StandBefore tokens stop place (t :: ts)) :
    StandBefore tokens stop place ts :=
  h.of_suffix (List.suffix_cons t ts)

/-- The first of them is the token at their index. -/
theorem getElem? (h : StandBefore tokens stop place ts) :
    tokens[place - ts.length]? = some (ts.headD stop) := by
  obtain ⟨later, hlater⟩ := h.behind
  rw [← List.head?_drop, hlater]
  exact head?_append_stop ts later stop

/-- They are fewer than all tokens. -/
theorem length_lt (h : StandBefore tokens stop place ts) : ts.length < tokens.length + 1 := by
  obtain ⟨later, hlater⟩ := h.behind
  have hlength := congrArg List.length hlater
  rw [List.length_drop, List.length_append] at hlength
  omega

end StandBefore

namespace Indexed

variable {tokens : List Token} {stop : Token} {place : Nat} {ts rest : List Token}

theorem peek_eq (h : StandBefore tokens stop place ts) :
    peek tokens (place - ts.length) = .ok (ts.headD stop) (place - ts.length) := by
  have hget : (get : Walk Nat) (place - ts.length) = .ok (place - ts.length) (place - ts.length) := rfl
  rw [peek, Walk.bind_ok hget, h.getElem?]
  rfl

/-- A token in front of the end mark is taken. -/
theorem consume_cons {t : Token} (h : StandBefore tokens stop place (t :: ts)) :
    consume tokens (place - (t :: ts).length) = .ok t (place - ts.length) := by
  have hkind : t.kind ≠ .endMark := h.unmarked t List.mem_cons_self
  have hfits := h.fits
  rw [List.length_cons] at hfits
  have hplace : place - (t :: ts).length + 1 = place - ts.length := by
    rw [List.length_cons]
    omega
  rw [consume, Walk.bind_ok (peek_eq h), List.headD_cons, if_pos hkind, ← hplace]
  rfl

/-- The end mark is not. -/
theorem consume_nil (h : StandBefore tokens stop place []) :
    consume tokens place = .ok stop place := by
  have hpeek := peek_eq h
  rw [List.length_nil, Nat.sub_zero] at hpeek
  rw [consume, Walk.bind_ok hpeek, List.headD_nil, if_neg (not_not_intro h.mark)]
  rfl

/-! ### Readers follow readers -/

/-- The formula or the error that a reader gives, with the index after it. -/
def give (result : Except ParseError Formula) (c : Nat) : EStateM.Result IndexFault Nat Formula :=
  match result with
  | .ok f => .ok f c
  | .error e => .error (.parse e) c

/-- In front of the end mark a reader by index does what a reader of the tokens ahead does. -/
def Follows (tokens : List Token) (stop : Token) (place : Nat) (walk : Walk Formula)
    (reader : Reader) : Prop :=
  ∀ ts, StandBefore tokens stop place ts →
    walk (place - ts.length) = give (reader ts).result (place - (reader ts).rest.length)

/-- Behind the formula in parentheses the closing one is taken, or the token that stands in its place. -/
theorem close_follows {opening : Token} {inner : Formula} (h : StandBefore tokens stop place rest) :
    close tokens opening inner (place - rest.length) =
      give (Reader.close stop opening inner rest).result
        (place - (Reader.close stop opening inner rest).rest.length) := by
  cases rest with
  | nil =>
    have hmark : stop.kind ≠ .closeParen := by simp [h.mark]
    rw [List.length_nil, Nat.sub_zero, close, Walk.bind_ok (consume_nil h), if_neg hmark]
    rfl
  | cons t rest =>
    rw [close, Walk.bind_ok (consume_cons h), Reader.close]
    split <;> rfl

theorem primary_follows {inside : Walk Formula} {reader : Reader} (hshort : reader.Shortens)
    (hinside : Follows tokens stop place inside reader) :
    Follows tokens stop place (primary tokens inside) (Reader.primary stop reader) := by
  intro ts h
  cases ts with
  | nil =>
    rw [List.length_nil, Nat.sub_zero, primary, Walk.bind_ok (consume_nil h)]
    simp only [h.mark]
    rfl
  | cons t ts =>
    have hmark : t.kind ≠ .endMark := h.unmarked t List.mem_cons_self
    rw [primary, Walk.bind_ok (consume_cons h)]
    cases hkind : t.kind with
    | const value =>
      rw [Reader.primary_const hkind]
      rfl
    | name =>
      rw [Reader.primary_name hkind]
      rfl
    | openParen =>
      have hread := hinside ts h.tail
      have hrest := hshort ts
      rcases heq : reader ts with ⟨e | inner, rest⟩ <;> rw [heq] at hread hrest
      · rw [Reader.primary_group_fail hkind heq]
        exact Walk.bind_error hread
      · rw [Reader.primary_group hkind heq, ← close_follows (h.tail.of_suffix hrest)]
        exact Walk.bind_ok hread
    | endMark => exact absurd hkind hmark
    | _ =>
      have hother : Reader.beginsPrimary t.kind = false := by rw [hkind]; rfl
      rw [Reader.primary_other hother]
      rfl

/-- As many signs are counted as there are. -/
theorem signs_eq (h : StandBefore tokens stop place ts) {bound : Nat} (hbound : ts.length < bound) :
    signs tokens bound (place - ts.length) =
      .ok (ts.takeWhile Reader.isNegation).length
        (place - (ts.dropWhile Reader.isNegation).length) := by
  induction ts generalizing bound with
  | nil =>
    obtain ⟨extra, rfl⟩ := Nat.exists_eq_add_of_lt hbound
    have hmark : stop.kind ≠ .negation := by simp [h.mark]
    rw [signs, Walk.bind_ok (peek_eq h), List.headD_nil, if_neg hmark]
    rfl
  | cons t ts ih =>
    obtain ⟨extra, rfl⟩ := Nat.exists_eq_add_of_lt hbound
    rw [signs, Walk.bind_ok (peek_eq h), List.headD_cons]
    by_cases hkind : t.kind = .negation
    · have hsign : Reader.isNegation t = true := by simp [Reader.isNegation, hkind]
      have hlater := ih h.tail (Nat.lt_of_succ_lt_succ hbound)
      rw [if_pos hkind, Walk.bind_ok (consume_cons h), Walk.bind_ok hlater,
        List.takeWhile_cons_of_pos hsign, List.dropWhile_cons_of_pos hsign]
      rfl
    · have hsign : ¬ Reader.isNegation t = true := by simp [Reader.isNegation, hkind]
      rw [if_neg hkind, List.takeWhile_cons_of_neg hsign, List.dropWhile_cons_of_neg hsign]
      rfl

theorem negation_follows {inside : Walk Formula} {reader : Reader} (hshort : reader.Shortens)
    (hinside : Follows tokens stop place inside reader) :
    Follows tokens stop place (negation tokens inside) (Reader.negation stop reader) := by
  intro ts h
  have hsigns := signs_eq h h.length_lt
  have hprimary := primary_follows hshort hinside _
    (h.of_suffix (List.dropWhile_suffix Reader.isNegation))
  rw [negation, Walk.bind_ok hsigns, Reader.negation]
  rcases heq : Reader.primary stop reader (ts.dropWhile Reader.isNegation) with ⟨e | f, rest⟩ <;>
    rw [heq] at hprimary
  · exact Walk.bind_error hprimary
  · exact Walk.bind_ok hprimary

/-- The rounds of a chain are those behind the first operand. -/
theorem rounds_follow {c : Connective} {operand : Walk Formula} {reader : Reader}
    (hshort : reader.Shortens) (hoperand : Follows tokens stop place operand reader) (left : Formula)
    (h : StandBefore tokens stop place ts) {bound : Nat} (hbound : ts.length < bound) :
    rounds tokens (.connective c) operand bound left (place - ts.length) =
      give (Reader.goOn c reader left ts).result
        (place - (Reader.goOn c reader left ts).rest.length) := by
  revert bound
  refine Reader.goOn_induction hshort
    (motive := fun left ts reading => StandBefore tokens stop place ts → ∀ {bound}, ts.length < bound →
      rounds tokens (.connective c) operand bound left (place - ts.length) =
        give reading.result (place - reading.rest.length))
    ?done ?fail ?step left ts h
  case done =>
    intro left ts hends h bound hbound
    obtain ⟨extra, rfl⟩ := Nat.exists_eq_add_of_lt hbound
    have hkind : (ts.headD stop).kind ≠ .connective c := by
      cases ts with
      | nil => simp [h.mark]
      | cons t ts => exact hends t rfl
    rw [rounds, Walk.bind_ok (peek_eq h), if_neg hkind]
    rfl
  case fail =>
    intro left t ts e rest hkind heq h bound hbound
    obtain ⟨extra, rfl⟩ := Nat.exists_eq_add_of_lt hbound
    have hread := hoperand ts h.tail
    rw [heq] at hread
    rw [rounds, Walk.bind_ok (peek_eq h), List.headD_cons, if_pos hkind, Walk.bind_ok (consume_cons h)]
    exact Walk.bind_error hread
  case step =>
    intro left t ts right rest hkind heq ih h bound hbound
    obtain ⟨extra, rfl⟩ := Nat.exists_eq_add_of_lt hbound
    have hread := hoperand ts h.tail
    have hrest := hshort ts
    rw [heq] at hread hrest
    rw [rounds, Walk.bind_ok (peek_eq h), List.headD_cons, if_pos hkind, Walk.bind_ok (consume_cons h),
      Walk.bind_ok hread]
    refine ih (h.tail.of_suffix hrest) ?_
    exact Nat.lt_of_le_of_lt hrest.length_le (Nat.lt_of_succ_lt_succ hbound)

theorem chain_follows {c : Connective} {operand : Walk Formula} {reader : Reader}
    (hshort : reader.Shortens) (hoperand : Follows tokens stop place operand reader) :
    Follows tokens stop place (chain tokens (.connective c) operand) (Reader.chain c reader) := by
  intro ts h
  have hread := hoperand ts h
  have hrest := hshort ts
  rcases heq : reader ts with ⟨e | first, rest⟩ <;> rw [heq] at hread hrest
  · rw [Reader.chain_fail heq]
    exact Walk.bind_error hread
  · have hlater := h.of_suffix hrest
    rw [Reader.chain_ok heq, ← rounds_follow hshort hoperand first hlater hlater.length_lt]
    exact Walk.bind_ok hread

theorem level_binary (inside : Walk Formula) (c : Connective) :
    level tokens inside (.binary c) =
      chain tokens (.connective c) (level tokens inside c.operandLevel) := by
  cases c <;> rfl

theorem level_follows {inside : Walk Formula} {reader : Reader} (hshort : reader.Shortens)
    (hinside : Follows tokens stop place inside reader) (l : Level) :
    Follows tokens stop place (level tokens inside l) (l.reader stop reader) := by
  refine Level.reader_induction (motive := fun l reader =>
    Follows tokens stop place (level tokens inside l) reader) ?primary ?negation ?chain l
  case primary => exact primary_follows hshort hinside
  case negation => exact negation_follows hshort hinside
  case chain =>
    intro c hoperand
    rw [level_binary]
    exact chain_follows (Level.reader_shortens hshort _) hoperand

theorem expression_follows (depth : Nat) :
    Follows tokens stop place (expression tokens depth) (Propositional.expression stop depth) := by
  induction depth with
  | zero =>
    intro ts h
    rw [expression, Walk.bind_ok (peek_eq h)]
    rfl
  | succ depth ih => exact level_follows (expression_shortens stop depth) ih .loosest

theorem read_follows (l : Level) : Follows tokens stop place (read tokens l) (l.read stop) :=
  level_follows (expression_shortens stop nestingLimit) (expression_follows nestingLimit) l

theorem run_follows (strict : Bool) :
    Follows tokens stop place (run tokens strict) (readFormula stop strict) := by
  intro ts h
  have hread := read_follows .loosest ts h
  have hrest : (Level.loosest.read stop ts).rest <:+ ts := Level.read_shortens stop .loosest ts
  rw [readFormula]
  rcases heq : Level.loosest.read stop ts with ⟨e | f, rest⟩ <;> rw [heq] at hread hrest
  · exact Walk.bind_error hread
  · have hlater := h.of_suffix hrest
    rw [run, Walk.bind_ok hread]
    cases strict with
    | false => cases rest <;> rfl
    | true =>
      rw [if_pos rfl, Walk.bind_ok (peek_eq hlater)]
      cases rest with
      | nil =>
        rw [List.headD_nil, if_neg (not_not_intro h.mark)]
        rfl
      | cons t rest =>
        rw [List.headD_cons, if_pos (hlater.unmarked t List.mem_cons_self)]
        rfl

end Indexed

/-! ### Parsers -/

/-- The tokens ahead of a parser stand where its cursor says, in front of the end mark at `place`. -/
structure Parser.StandsAt (tokens : List Token) (place : Nat) (p : Parser) : Prop where
  place_eq : p.cursor + p.ahead.length = place
  before : StandBefore tokens p.stop place p.ahead

namespace Parser.StandsAt

variable {tokens : List Token} {place : Nat} {p q : Parser}

theorem cursor_eq (h : p.StandsAt tokens place) : p.cursor = place - p.ahead.length := by
  rw [← h.place_eq, Nat.add_sub_cancel]

/-- So they do wherever the parser moves. -/
theorem movesTo (h : p.StandsAt tokens place) (hq : p.MovesTo q) : q.StandsAt tokens place := by
  obtain ⟨rest, hrest, rfl⟩ := hq
  have hle := hrest.length_le
  have hplace := h.place_eq
  refine ⟨?_, h.before.of_suffix hrest⟩
  show p.cursor + (p.ahead.length - rest.length) + rest.length = place
  omega

/-- A reader by index does what a parser does. -/
theorem walk_eq (h : p.StandsAt tokens place) {walk : Walk Formula} {reader : Reader}
    (hshort : reader.Shortens) (hfollows : Indexed.Follows tokens p.stop place walk reader) :
    walk p.cursor = Indexed.give (p.apply reader).1 (p.apply reader).2.cursor := by
  have hcursor := (h.movesTo (p.movesTo_apply hshort)).cursor_eq
  rw [hcursor, h.cursor_eq]
  exact hfollows p.ahead h.before

theorem read_eq (h : p.StandsAt tokens place) {l : Level} {result : Except ParseError Formula}
    (hread : p.read l = (result, q)) :
    Indexed.read tokens l p.cursor = Indexed.give result q.cursor := by
  rw [h.walk_eq (Level.read_shortens p.stop l) (Indexed.read_follows l)]
  rw [Parser.read] at hread
  rw [hread]

theorem peek_eq (h : p.StandsAt tokens place) :
    Indexed.peek tokens p.cursor = .ok p.peek p.cursor := by
  rw [h.cursor_eq, Indexed.peek_eq h.before]
  rfl

theorem consume_eq (h : p.StandsAt tokens place) :
    Indexed.consume tokens p.cursor = .ok p.peek p.consume.2.cursor := by
  rw [(h.movesTo p.movesTo_consume).cursor_eq, h.cursor_eq, Parser.consume, moveTo, Parser.peek]
  have hbefore := h.before
  cases hahead : p.ahead with
  | nil =>
    rw [hahead] at hbefore
    rw [List.length_nil, Nat.sub_zero, Indexed.consume_nil hbefore]
    rfl
  | cons t ts =>
    rw [hahead] at hbefore
    rw [Indexed.consume_cons hbefore]
    rfl

end Parser.StandsAt

namespace Indexed

variable {tokens : List Token} {place : Nat} {p : Parser}

/-! ### Steps -/

theorem outcome_give (wrap : ParseError → CallError) (result : Except ParseError Formula) (c : Nat) :
    outcome wrap (give result c) = (some (.ofResult (result.mapError wrap)), c) := by
  cases result <;> rfl

/-- A chain of a kind that is no connective takes one round at most. -/
theorem chain_eq_readPair (h : p.StandsAt tokens place) {kind : TokenKind}
    (hkind : kind.connective? = none) (l : Level) :
    outcome .ofReading (chain tokens kind (read tokens l) p.cursor) =
      (some (.ofResult (p.readPair kind l).1), (p.readPair kind l).2.cursor) := by
  rcases Parser.readPair_cases hkind p l with ⟨e, q, hread, hpair⟩ | ⟨first, q, hread, hends, hpair⟩ |
      ⟨first, q, e, r, hread, hsign, hnext, hpair⟩ |
      ⟨first, q, second, r, hread, hsign, hnext, hnode, hpair⟩
  · have hfirst := h.read_eq hread
    rw [hpair, chain, Walk.bind_error hfirst]
    rfl
  · have hfirst := h.read_eq hread
    have hq := h.movesTo (Parser.movesTo_of_read hread)
    rw [hpair, chain, Walk.bind_ok hfirst, rounds, Walk.bind_ok hq.peek_eq, if_neg hends]
    rfl
  · have hfirst := h.read_eq hread
    have hq := h.movesTo (Parser.movesTo_of_read hread)
    have hsecond := (hq.movesTo q.movesTo_consume).read_eq hnext
    rw [hpair, chain, Walk.bind_ok hfirst, rounds, Walk.bind_ok hq.peek_eq, if_pos hsign,
      Walk.bind_ok hq.consume_eq, Walk.bind_error hsecond]
    rfl
  · have hfirst := h.read_eq hread
    have hq := h.movesTo (Parser.movesTo_of_read hread)
    have hsecond := (hq.movesTo q.movesTo_consume).read_eq hnext
    rw [hpair, chain, Walk.bind_ok hfirst, rounds, Walk.bind_ok hq.peek_eq, if_pos hsign,
      Walk.bind_ok hq.consume_eq, Walk.bind_ok hsecond, hnode]
    rfl

/-- **A step by index** gives what the step of the parser gives, and leaves the index where the parser leaves
its cursor. -/
theorem perform_eq (h : p.StandsAt tokens place) (call : Call) :
    perform tokens p.cursor call = (some (p.perform call).1, (p.perform call).2.cursor) := by
  cases call with
  | peek =>
    rw [perform, h.peek_eq]
    rfl
  | consume =>
    rw [perform, h.consume_eq]
    rfl
  | run strict =>
    rw [perform, h.walk_eq (readFormula_shortens p.stop strict) (run_follows strict), outcome_give]
    rfl
  | read l =>
    rw [perform, h.walk_eq (Level.read_shortens p.stop l) (read_follows l), outcome_give]
    rfl
  | readChain kind l =>
    cases hkind : kind.connective? with
    | none =>
      rw [perform, chain_eq_readPair h hkind]
      simp only [Parser.perform, Parser.readChain_of_connective?_eq_none hkind]
    | some c =>
      cases eq_connective_of_connective? hkind
      have hshort := Level.read_shortens p.stop l
      rw [perform, h.walk_eq (Reader.chain_shortens hshort) (chain_follows hshort (read_follows l)),
        outcome_give]
      rfl

/-- So do steps one after the other: the index is never outside of the sequence, and no loop is endless. -/
theorem performAll_eq (h : p.StandsAt tokens place) (calls : List Call) :
    performAll tokens p.cursor calls =
      (p.performAll calls).map fun step => (some step.1, step.2.cursor) := by
  induction calls generalizing p with
  | nil => rfl
  | cons call calls ih =>
    have hlater := ih (h.movesTo (p.movesTo_perform call))
    rw [performAll, perform_eq h, Parser.performAll, List.map_cons, ← hlater]

/-- The index goes where the cursor of a parser goes. -/
theorem after_eq (h : p.StandsAt tokens place) (calls : List Call) :
    after tokens p.cursor calls = (p.after calls).cursor := by
  induction calls generalizing p with
  | nil => rfl
  | cons call calls ih =>
    have hlater := ih (h.movesTo (p.movesTo_perform call))
    rw [after, List.foldl_cons, perform_eq h]
    exact hlater

end Indexed

end Propositional
