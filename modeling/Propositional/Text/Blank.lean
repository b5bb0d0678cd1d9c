/-!
# Blank characters

* `isSpace` — white space, as it may stand around a number;
* `isBlank` — white space and the ASCII separators, which are cut off at the ends of a line;
* `strip` — a text without the blanks at its two ends;
* `isBlankText` — does a text consist of blanks only?
-/

namespace Propositional.Text

/-- White space: the ASCII blanks, the next-line control and the spaces and line separators of
Unicode. -/
def isSpace (c : Char) : Bool :=
  let code := c.toNat
  (9 ≤ code && code ≤ 13) || code == 0x20 || code == 0x85 || code == 0xA0 || code == 0x1680 ||
    (0x2000 ≤ code && code ≤ 0x200A) || code == 0x2028 || code == 0x2029 || code == 0x202F ||
    code == 0x205F || code == 0x3000

/-- White space or one of the four ASCII separators of files, groups, records and units. -/
def isBlank (c : Char) : Bool := isSpace c || (28 ≤ c.toNat && c.toNat ≤ 31)

/-- A text without the characters at its end that pass a test. -/
def dropEndWhile (test : Char → Bool) (text : List Char) : List Char :=
  (text.reverse.dropWhile test).reverse

/-- A text without the blanks at its beginning and at its end. -/
def strip (text : List Char) : List Char := dropEndWhile isBlank (text.dropWhile isBlank)

/-- Is nothing left of a text when its blanks are cut off? -/
def isBlankText (text : List Char) : Bool := (strip text).isEmpty

end Propositional.Text
