import Propositional.Text.Blank

/-!
# Formula files

A formula file holds one formula a line.  From the first `#` on, a line is a comment; blanks around
the formula do not count, and lines without formula are left out.

* `splitLines` — the lines of a text, ended by a line feed, a carriage return or both;
* `formulaOfLine` — the formula of a line;
* `formulasOfText`, `formulasOfBytes` — the formulas of a file, which must be valid UTF-8.
-/

namespace Propositional.FormulaFile

/-- The lines of a text; `line` holds the characters of the current line, the latest first. -/
def splitLinesFrom (line : List Char) : List Char → List (List Char)
  | [] => [line.reverse]
  | '\r' :: '\n' :: rest => line.reverse :: splitLinesFrom [] rest
  | c :: rest =>
    if c = '\n' || c = '\r' then line.reverse :: splitLinesFrom [] rest
    else splitLinesFrom (c :: line) rest

/-- The lines of a text.  A line ends with a line feed, a carriage return, or a carriage return and a
line feed; behind the last line end stands one more line, which may be empty. -/
def splitLines (text : List Char) : List (List Char) := splitLinesFrom [] text

/-- The formula of a line: what stands in front of a comment, without the blanks around it. -/
def formulaOfLine (line : List Char) : List Char :=
  Text.strip (line.takeWhile fun c => c != '#')

/-- The formulas of a text, line by line. -/
def formulasOfText (text : List Char) : List String :=
  (((splitLines text).map formulaOfLine).filter fun formula => !formula.isEmpty).map String.ofList

/-- The formulas of a file; none if its bytes are not valid UTF-8. -/
def formulasOfBytes (bytes : ByteArray) : Option (List String) :=
  (String.fromUTF8? bytes).map fun text => formulasOfText text.toList

end Propositional.FormulaFile
