import Propositional.Formula.Basic

/-!
# What can go wrong, and how it is worded

Each stage has a type of causes; the wording is a function of the cause.

* `LexFault`, `LexError` — a text that is no sequence of lexemes, and where it goes wrong;
* `ParseFault`, `ParseError` — a token sequence that is no formula;
* `EvalError` — a formula that cannot be walked or evaluated;
* `FormulaError` — any reason why a text has no truth table;
* `Diagnostic` — the stage, the wording and the position, if there is one; `Diagnostic.text` is the
  line that reports it.
-/

namespace Propositional

/-! ### Lexing -/

/-- Why no lexeme begins at a place. -/
inductive LexFault where
  /-- The text ends inside an arrow. -/
  | unfinished (arrow : String)
  /-- An arrow goes on with another character. -/
  | mismatch (found : Char) (arrow : String)
  /-- A character that can begin nothing. -/
  | notLetter (found : Char)
  deriving DecidableEq, Repr

/-- The wording of a fault in the text. -/
def LexFault.message : LexFault → String
  | unfinished arrow => "Unexpected end of input while reading '" ++ arrow ++ "'"
  | mismatch found arrow =>
      "Unexpected character '" ++ found.toString ++ "' while reading '" ++ arrow ++ "'"
  | notLetter found => "Variable started with non-letter '" ++ found.toString ++ "'"

/-- A fault and the place of the character at which it shows. -/
structure LexError where
  fault : LexFault
  position : Int
  deriving DecidableEq, Repr

/-- The same fault in a text that begins `distance` characters earlier. -/
def LexError.shift (distance : Int) (e : LexError) : LexError :=
  ⟨e.fault, distance + e.position⟩

/-! ### Reading tokens as a formula -/

/-- Why a token sequence is no formula. -/
inductive ParseFault where
  /-- The sequence does not end with an end mark. -/
  | missingEnd
  /-- No operand begins with this lexeme, or with the end mark (`none`). -/
  | operandExpected (found : Option String)
  /-- A group opened at this position is not closed here. -/
  | unclosed (opening : Int)
  /-- A lexeme follows a complete formula. -/
  | trailing (found : String)
  /-- Parentheses are nested beyond the limit. -/
  | tooDeep
  deriving DecidableEq, Repr

/-- The wording of a fault in the token sequence. -/
def ParseFault.message : ParseFault → String
  | missingEnd => "Token sequence must end with EOF"
  | operandExpected none => "Expected variable, literal or '(', found end of formula"
  | operandExpected (some lexeme) =>
      "Expected variable, literal or '(', found '" ++ lexeme ++ "'"
  | unclosed opening => "Expected ')' to close '(' at position " ++ toString opening
  | trailing lexeme => "Expected end of formula, found '" ++ lexeme ++ "'"
  | tooDeep => "Formula nested too deeply"

/-- A fault and the position of the token at which it shows.  A missing end mark has none. -/
structure ParseError where
  fault : ParseFault
  position : Option Int
  deriving DecidableEq, Repr

/-! ### Walking a formula -/

/-- Why a walk over a formula fails. -/
inductive EvalError where
  /-- A variable has no value. -/
  | unassigned (name : String)
  /-- A leaf belongs to another library. -/
  | unknownNode (typeName : String)
  /-- A token kind is asked for a truth function that it does not have. -/
  | notConnective (kind : TokenKind)
  /-- An operator lacks an operand on the stack. -/
  | unbalanced
  deriving DecidableEq, Repr

/-- The wording of a failed walk. -/
def EvalError.message : EvalError → String
  | unassigned name => "Variable '" ++ name ++ "' has no assigned value"
  | unknownNode typeName => "Unknown node type " ++ typeName
  | notConnective kind => "Unexpected binary operator TokenKind." ++ kind.label
  | unbalanced => "Operand missing"

/-! ### From text to table -/

/-- Why a text has no truth table. -/
inductive FormulaError where
  | lex (e : LexError)
  | parse (e : ParseError)
  | eval (e : EvalError)
  /-- The formula has more variables than allowed. -/
  | tooManyVariables (found : Nat) (allowed : Int)
  deriving DecidableEq, Repr

/-- The stage that reports an error. -/
inductive Stage where
  | formula
  | lexer
  | parser
  | evaluator
  deriving DecidableEq, Repr

/-- The word for a stage in a report. -/
def Stage.label : Stage → String
  | formula => "Formula"
  | lexer => "Lexer"
  | parser => "Parser"
  | evaluator => "Evaluator"

/-- An error in words. -/
structure Diagnostic where
  stage : Stage
  message : String
  position : Option Int
  deriving DecidableEq, Repr

/-- The line that reports an error. -/
def Diagnostic.text (d : Diagnostic) : String :=
  match d.position with
  | none => d.stage.label ++ " error: " ++ d.message
  | some position =>
      d.stage.label ++ " error at position " ++ toString position ++ ": " ++ d.message

/-- An error of the text in words. -/
def LexError.diagnostic (e : LexError) : Diagnostic :=
  ⟨.lexer, e.fault.message, some e.position⟩

/-- An error of the token sequence in words. -/
def ParseError.diagnostic (e : ParseError) : Diagnostic :=
  ⟨.parser, e.fault.message, e.position⟩

/-- A failed walk in words. -/
def EvalError.diagnostic (e : EvalError) : Diagnostic :=
  ⟨.evaluator, e.message, none⟩

/-- A missing table in words. -/
def FormulaError.diagnostic : FormulaError → Diagnostic
  | lex e => e.diagnostic
  | parse e => e.diagnostic
  | eval e => e.diagnostic
  | tooManyVariables found allowed =>
      ⟨.formula, "Found " ++ toString found ++ " variables, at most " ++ toString allowed ++
        " allowed", none⟩

/-- The line that reports why there is no table. -/
def FormulaError.text (e : FormulaError) : String := e.diagnostic.text

end Propositional
