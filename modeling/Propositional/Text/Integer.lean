import Propositional.Text.Blank
import Propositional.Text.DecimalDigit

/-!
# Reading whole numbers

A whole number is written as an optional sign and decimal digits of any script; single underscores
may stand between digits, and white space around the whole.  At most 4300 digits are read.

* `readDigits` — digits with underscores between them;
* `readInteger` — the number.
-/

namespace Propositional.Text

/-- The values of the digits of a numeral, most significant first.  An underscore is allowed only
between two digits. -/
def readDigits : List Char → Option (List Nat)
  | [] => none
  | [c] => (digitValue? c).map ([·])
  | c :: '_' :: rest => do
    let value ← digitValue? c
    let values ← readDigits rest
    return value :: values
  | c :: rest => do
    let value ← digitValue? c
    let values ← readDigits rest
    return value :: values

/-- The largest number of digits that is read. -/
def maxDigits : Nat := 4300

/-- The number written by a digit string without sign. -/
def readNatural (text : List Char) : Option Nat := do
  let values ← readDigits text
  if values.length ≤ maxDigits then
    return values.foldl (fun number value => 10 * number + value) 0
  else none

/-- The whole number that a text writes with or without a sign, and with no space around it. -/
def readSigned : List Char → Option Int
  | '+' :: digits => (readNatural digits).map Int.ofNat
  | '-' :: digits => (readNatural digits).map fun number => -Int.ofNat number
  | digits => (readNatural digits).map Int.ofNat

/-- The whole number that a text writes, white space around it apart. -/
def readInteger (text : String) : Option Int :=
  readSigned (dropEndWhile isSpace (text.toList.dropWhile isSpace))

end Propositional.Text
