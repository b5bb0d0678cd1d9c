import Propositional.Diagnostic

/-!
# Reading a formula from tokens

The grammar, loosest binding first; every binary level folds to the left:

* biconditional: implications with `iff` between them;
* implication: disjunctions with `imp` between them;
* disjunction: conjunctions with `disj` between them;
* conjunction: negations with `conj` between them;
* negation: a primary after any number of negation signs;
* primary: a constant, a name, or a biconditional in parentheses.

A `Reader` takes the tokens in front of the end mark and gives a formula, or an error, together
with the tokens that it leaves.  The end mark itself is never taken.

* `primary`, `negation`, `chain`, `binaryLevels` — the readers of the levels;
* `Level`, `Level.reader` — the levels by name;
* `expression` — the loosest level, with a bound on the nesting of parentheses;
* `TokenStream` — a token sequence cut at its first end mark; `parse` — the formula of a sequence.
-/

namespace Propositional

/-- What a reader gives: a formula or an error, and the tokens left. -/
structure Reading where
  result : Except ParseError Formula
  rest : List Token

/-- A reader works on the tokens in front of the end mark. -/
abbrev Reader := List Token → Reading

namespace Reader

/-! ### Operands -/

/-- Close the group that was opened by the token `opening`. -/
def close (stop opening : Token) (inner : Formula) : Reader
  | [] => ⟨.error ⟨.unclosed opening.position, some stop.position⟩, []⟩
  | t :: ts =>
    if t.kind = .closeParen then ⟨.ok (.group inner), ts⟩
    else ⟨.error ⟨.unclosed opening.position, some t.position⟩, ts⟩

/-- Read a primary; `inside` reads what stands in parentheses.  The token that cannot begin a
primary is taken all the same, unless it is the end mark. -/
def primary (stop : Token) (inside : Reader) : Reader
  | [] => ⟨.error ⟨.operandExpected none, some stop.position⟩, []⟩
  | t :: ts =>
    match t.kind with
    | .const value => ⟨.ok (.const value), ts⟩
    | .name => ⟨.ok (.var t.lexeme), ts⟩
    | .openParen =>
      match inside ts with
      | ⟨.ok inner, rest⟩ => close stop t inner rest
      | failed => failed
    | _ => ⟨.error ⟨.operandExpected (some t.lexeme), some t.position⟩, ts⟩

/-- Is a token a negation sign? -/
def isNegation (t : Token) : Bool := t.kind = .negation

/-- Read negation signs and the primary after them. -/
def negation (stop : Token) (inside : Reader) : Reader := fun ts =>
  let reading := primary stop inside (ts.dropWhile isNegation)
  { reading with result := reading.result.map (Formula.negTimes (ts.takeWhile isNegation).length) }

/-! ### Binary levels -/

/-- Go on after the formula `left` with further operands, as long as the connective `c` stands in
front of them.  At most as many operands are read as the list `bound` has members. -/
def chainFrom (c : Connective) (operand : Reader) : List Token → Formula → Reader
  | _ :: bound, left, t :: ts =>
    if t.kind = .connective c then
      match operand ts with
      | ⟨.ok right, rest⟩ => chainFrom c operand bound (.binary c left right) rest
      | failed => failed
    else ⟨.ok left, t :: ts⟩
  | _, left, ts => ⟨.ok left, ts⟩

/-- Read operands with the connective `c` between them and fold them to the left.  Each further
operand costs at least the token of its connective, so the tokens left are bound enough. -/
def chain (c : Connective) (operand : Reader) : Reader := fun ts =>
  match operand ts with
  | ⟨.ok first, rest⟩ => chainFrom c operand rest first rest
  | failed => failed

/-- Read the levels of the given connectives, the loosest first, over the reader of the tightest
level. -/
def binaryLevels (base : Reader) : List Connective → Reader
  | [] => base
  | c :: tighter => chain c (binaryLevels base tighter)

end Reader

/-! ### Levels by name -/

/-- The levels of the grammar. -/
inductive Level where
  | binary (c : Connective)
  | negation
  | primary
  deriving DecidableEq, Repr

namespace Level

/-- The connectives that occur at a level outside parentheses, the loosest first. -/
def connectives : Level → List Connective
  | binary .iff => [.iff, .imp, .disj, .conj]
  | binary .imp => [.imp, .disj, .conj]
  | binary .disj => [.disj, .conj]
  | binary .conj => [.conj]
  | negation => []
  | primary => []

/-- The level of a whole formula. -/
def loosest : Level := binary .iff

/-- The reader of a level, given the end mark and the reader for what stands in parentheses. -/
def reader (stop : Token) (inside : Reader) : Level → Reader
  | primary => Reader.primary stop inside
  | level => Reader.binaryLevels (Reader.negation stop inside) level.connectives

end Level

/-! ### Nesting -/

/-- How deep parentheses may be nested.  Each level of them costs eleven calls inside of each other, out of
a thousand that are allowed, and some are spent before reading begins. -/
def nestingLimit : Nat := 89

/-- Read a formula of the loosest level with fewer than `depth` levels of parentheses.  Behind one level too
many nothing is taken, and the error has the position of the next token. -/
def expression (stop : Token) : Nat → Reader
  | 0 => fun ts => ⟨.error ⟨.tooDeep, some (ts.headD stop).position⟩, ts⟩
  | depth + 1 => Level.loosest.reader stop (expression stop depth)

/-- Read a formula of a given level, with parentheses nested up to the limit. -/
def Level.read (stop : Token) (level : Level) : Reader :=
  level.reader stop (expression stop nestingLimit)

/-- Read a whole formula; in strict mode nothing but the end mark may follow. -/
def readFormula (stop : Token) (strict : Bool) : Reader := fun ts =>
  match Level.loosest.read stop ts with
  | ⟨.ok f, t :: rest⟩ =>
    if strict then ⟨.error ⟨.trailing t.lexeme, some t.position⟩, t :: rest⟩
    else ⟨.ok f, t :: rest⟩
  | reading => reading

/-! ### Whole token sequences -/

/-- A token sequence up to its first end mark: the tokens in front of it, and the mark. -/
structure TokenStream where
  ahead : List Token
  stop : Token
  deriving DecidableEq, Repr

/-- Is a token an end mark? -/
def Token.isEndMark (t : Token) : Bool := t.kind = .endMark

/-- Cut a token sequence at its first end mark.  The last token has to be one. -/
def TokenStream.ofTokens (tokens : List Token) : Except ParseError TokenStream :=
  match tokens.getLast?.map Token.isEndMark, tokens.dropWhile fun t => !t.isEndMark with
  | some true, stop :: _ => .ok ⟨tokens.takeWhile fun t => !t.isEndMark, stop⟩
  | _, _ => .error ⟨.missingEnd, none⟩

/-- The formula of a token sequence. -/
def parse (tokens : List Token) (strict : Bool) : Except ParseError Formula := do
  let stream ← TokenStream.ofTokens tokens
  (readFormula stream.stop strict stream.ahead).result

end Propositional
