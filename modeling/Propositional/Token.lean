import Propositional.Connective
import Propositional.Text.Quoted

/-!
# Tokens

A formula is read as a sequence of tokens: names of variables, constants, operators, parentheses
and the mark at the end.

* `TokenKind` — the kinds of tokens; `TokenKind.label` is the word for a kind, and
  `TokenKind.ofLabel?` reads it back (`TokenKind.ofLabel?_label`);
* `TokenKind.connective?` — the binary connective that a kind stands for;
* `Token` — a kind, the text as written and the offset of its first character;
* `Token.text` — how a token is shown.
-/

namespace Propositional

/-- What a token is, apart from its spelling and its place. -/
inductive TokenKind where
  | name
  | const (value : Bool)
  | connective (c : Connective)
  | negation
  | openParen
  | closeParen
  | endMark
  deriving DecidableEq, Repr, Inhabited

namespace TokenKind

/-- All kinds. -/
def all : List TokenKind :=
  [name, const true, const false, connective .conj, connective .disj, negation, connective .imp,
    connective .iff, openParen, closeParen, endMark]

/-- The word for a kind in messages and listings. -/
def label : TokenKind → String
  | name => "VARIABLE"
  | const true => "TRUE"
  | const false => "FALSE"
  | connective .conj => "AND"
  | connective .disj => "OR"
  | negation => "NOT"
  | connective .imp => "IF"
  | connective .iff => "IFF"
  | openParen => "LEFT_PAREN"
  | closeParen => "RIGHT_PAREN"
  | endMark => "EOF"

/-- The kind with a given word. -/
def ofLabel? (word : String) : Option TokenKind := all.find? fun kind => kind.label == word

theorem ofLabel?_label (kind : TokenKind) : ofLabel? kind.label = some kind := by
  cases kind with
  | const value => cases value <;> decide
  | connective c => cases c <;> decide
  | _ => decide

/-- The binary connective that a kind stands for. -/
def connective? : TokenKind → Option Connective
  | connective c => some c
  | _ => none

end TokenKind

/-- A token: its kind, its text as written and the offset of its first character. -/
structure Token where
  kind : TokenKind
  lexeme : String
  position : Int
  deriving DecidableEq, Repr, Inhabited

namespace Token

/-- The mark that ends every token sequence. -/
def endMark (position : Int) : Token := ⟨.endMark, "", position⟩

/-- A token as it is shown: kind, quoted lexeme and position. -/
def text (t : Token) : String :=
  "Token(" ++ t.kind.label ++ ", " ++ Text.quoted t.lexeme ++ ", " ++ toString t.position ++ ")"

end Token

end Propositional
