import Propositional.Text.Printable

/-!
# Quoted text

How a piece of text is shown inside a message.  It stands in single quotes, or in double quotes if
it holds a single quote and no double one.  The quote in use, the backslash, tab, line feed and
carriage return are written with a backslash before them; other characters that are not printable
are written by their code point in hexadecimal, with two, four or eight digits.

* `quoteMark` — the choice of the quote;
* `escaped` — how one character is written;
* `quoted` — a whole text.
-/

namespace Propositional.Text

/-- The lower-case hexadecimal digit of a value below sixteen. -/
def hexDigit (value : Nat) : Char := Nat.digitChar value

/-- The last `width` hexadecimal digits of a number. -/
def hexNumeral : Nat → Nat → List Char
  | 0, _ => []
  | width + 1, value => hexNumeral width (value / 16) ++ [hexDigit (value % 16)]

/-- A code point as an escape of the shortest form that holds it. -/
def codeEscape (code : Nat) : List Char :=
  if code ≤ 0xFF then ['\\', 'x'] ++ hexNumeral 2 code
  else if code ≤ 0xFFFF then ['\\', 'u'] ++ hexNumeral 4 code
  else ['\\', 'U'] ++ hexNumeral 8 code

/-- The quote that a text is put in. -/
def quoteMark (text : List Char) : Char :=
  if text.contains '\'' && !text.contains '"' then '"' else '\''

/-- How one character is written between the given quotes. -/
def escaped (mark c : Char) : List Char :=
  if c = mark || c = '\\' then ['\\', c]
  else if c = '\t' then ['\\', 't']
  else if c = '\n' then ['\\', 'n']
  else if c = '\r' then ['\\', 'r']
  else if isPrintable c then [c]
  else codeEscape c.toNat

/-- A text in quotes. -/
def quoted (text : String) : String :=
  let mark := quoteMark text.toList
  String.ofList (mark :: text.toList.flatMap (escaped mark) ++ [mark])

end Propositional.Text
