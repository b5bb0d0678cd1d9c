import Propositional.Formula.Reader

/-!
# Reading a formula step by step

* `Parser` — the tokens still ahead, the end mark, and the number of tokens taken so far;
* `Parser.peek`, `Parser.consume` — look at a token, take it; the end mark is never taken;
* `Parser.read`, `Parser.run` — read a formula of some level, or a whole one;
* `Parser.readChain` — read a chain of operands of some level with a token of any kind between
  them;
* `Call`, `Outcome`, `Parser.perform` — the steps by name and what they give;
  `Parser.performAll` — several steps one after the other, `Parser.after` — the parser after them.

A step leaves the parser behind the tokens it has taken, also when it fails.
-/

namespace Propositional

/-- A place in a token sequence. -/
structure Parser where
  cursor : Nat
  ahead : List Token
  stop : Token
  deriving DecidableEq, Repr

/-- Why a step of a parser fails. -/
inductive CallError where
  | parse (e : ParseError)
  | node (e : NodeError)
  /-- Parentheses are nested beyond the limit.  Only a run over a whole formula reports this as an error
  of the tokens. -/
  | outOfDepth
  deriving DecidableEq, Repr

/-- How a step other than a whole run passes on the error of its reader. -/
def CallError.ofReading (e : ParseError) : CallError :=
  if e.fault = .tooDeep then .outOfDepth else .parse e

namespace Parser

/-- A parser at the beginning of a token sequence. -/
def ofTokens (tokens : List Token) : Except ParseError Parser := do
  let stream ← TokenStream.ofTokens tokens
  return ⟨0, stream.ahead, stream.stop⟩

/-- The parser from which only the tokens `rest` of those ahead are left. -/
def moveTo (rest : List Token) (p : Parser) : Parser :=
  { p with cursor := p.cursor + (p.ahead.length - rest.length), ahead := rest }

/-- The next token. -/
def peek (p : Parser) : Token := p.ahead.headD p.stop

/-- Take the next token, unless it is the end mark. -/
def consume (p : Parser) : Token × Parser := (p.peek, p.moveTo p.ahead.tail)

/-- Apply a reader. -/
def apply (reader : Reader) (p : Parser) : Except ParseError Formula × Parser :=
  let reading := reader p.ahead
  (reading.result, p.moveTo reading.rest)

/-- Read a formula of a given level. -/
def read (level : Level) (p : Parser) : Except ParseError Formula × Parser :=
  p.apply (level.read p.stop)

/-- Read a whole formula. -/
def run (strict : Bool) (p : Parser) : Except ParseError Formula × Parser :=
  p.apply (readFormula p.stop strict)

/-- Read one operand, and if a token of a kind that is no connective follows, take it and read a
second operand; the two cannot be joined. -/
def readPair (kind : TokenKind) (level : Level) (p : Parser) : Except CallError Formula × Parser :=
  match p.read level with
  | (.error e, q) => (.error (.ofReading e), q)
  | (.ok first, q) =>
    if q.peek.kind = kind then
      match q.consume.2.read level with
      | (.error e, r) => (.error (.ofReading e), r)
      | (.ok second, r) => ((Formula.connect kind first second).mapError .node, r)
    else (.ok first, q)

/-- Read operands of a given level with tokens of the given kind between them, and fold them to the
left. -/
def readChain (kind : TokenKind) (level : Level) (p : Parser) :
    Except CallError Formula × Parser :=
  match kind.connective? with
  | some c =>
    let (result, q) := p.apply (Reader.chain c (level.read p.stop))
    (result.mapError .ofReading, q)
  | none => p.readPair kind level

end Parser

/-! ### Steps by name -/

/-- A step of a parser. -/
inductive Call where
  | peek
  | consume
  | run (strict : Bool)
  | read (level : Level)
  | readChain (kind : TokenKind) (level : Level)
  deriving DecidableEq, Repr

/-- What a step gives. -/
inductive Outcome where
  | token (t : Token)
  | formula (f : Formula)
  | failed (e : CallError)
  deriving DecidableEq, Repr

/-- The outcome of reading a formula. -/
def Outcome.ofResult : Except CallError Formula → Outcome
  | .ok f => formula f
  | .error e => failed e

namespace Parser

/-- Take one step. -/
def perform (p : Parser) : Call → Outcome × Parser
  | .peek => (.token p.peek, p)
  | .consume => (.token p.consume.1, p.consume.2)
  | .run strict =>
    let (result, q) := p.run strict
    (.ofResult (result.mapError .parse), q)
  | .read level =>
    let (result, q) := p.read level
    (.ofResult (result.mapError .ofReading), q)
  | .readChain kind level =>
    let (result, q) := p.readChain kind level
    (.ofResult result, q)

/-- Take steps one after the other; each outcome comes with the parser after the step. -/
def performAll (p : Parser) : List Call → List (Outcome × Parser)
  | [] => []
  | call :: calls =>
    let step := p.perform call
    step :: step.2.performAll calls

/-- The parser after some steps, whether they fail or not. -/
def after (p : Parser) (calls : List Call) : Parser :=
  calls.foldl (fun q call => (q.perform call).2) p

end Parser

end Propositional
