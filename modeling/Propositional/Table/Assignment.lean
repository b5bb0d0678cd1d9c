import Propositional.Formula.Value
import Propositional.Formula.Names

/-!
# All assignments of some variables

* `bitRow`, `bitRows` — the rows of `n` truth values in increasing order, read as binary numbers
  with the first value as the most significant digit;
* `numeral`, `patterns` — the same rows as binary numerals of `n` digits;
* `columns` — the values of a row by name;
* `Formula.evalRows` — the value of a formula on each row;
* `Formula.evaluate` — the variables of a formula and its values on all assignments of them.
-/

namespace Propositional

/-! ### Rows -/

/-- The `n` lowest binary digits of a number, the most significant first. -/
def bitRow (n number : Nat) : List Bool :=
  (List.range n).map fun place => number.testBit (n - 1 - place)

/-- All rows of `n` truth values in increasing order. -/
def bitRows (n : Nat) : List (List Bool) := (List.range (Nat.pow 2 n)).map (bitRow n)

/-- The digit that writes a truth value. -/
def bitDigit (value : Bool) : Char := if value then '1' else '0'

/-- The last `n` digits of the binary numeral of a number. -/
def numeral : Nat → Nat → List Char
  | 0, _ => []
  | n + 1, number => numeral n (number / 2) ++ [bitDigit (number % 2 = 1)]

/-- The binary numerals of `n` digits in increasing order. -/
def patterns (n : Nat) : List String :=
  (List.range (Nat.pow 2 n)).map fun number => String.ofList (numeral n number)

/-! ### Values on rows -/

/-- The values of a row by name.  The shorter of the two lists decides how many there are; the
columns stand in reverse order, so that of two columns of one name the later is found. -/
def columns (names : List String) (row : List Bool) : List (String × Bool) :=
  (names.zip row).reverse

/-- The value of a walk on one row. -/
def valueOnRow (visits : List Visit) (names : List String) (row : List Bool) :
    Except EvalError Bool :=
  let values := columns names row
  (valueAlgebra fun name => values.lookup name).runVisits visits

namespace Formula

/-- The value of a formula on each row, the columns being named. -/
def evalRows (f : Formula) (names : List String) (rows : List (List Bool)) :
    Except EvalError (List Bool) :=
  let visits := f.visits
  rows.mapM (valueOnRow visits names)

/-- The variables of a formula and its value on each assignment of them. -/
def evaluate (f : Formula) : Except EvalError (List String × List Bool) := do
  let names ← f.names
  let values ← f.evalRows names (bitRows names.length)
  return (names, values)

end Formula

end Propositional
