import Propositional.Table.Basic

/-!
# Tables as text

* `TruthTable.header` — the names of the variables and the label, with spaces between them;
* `TruthTable.format` — the header and a line for each row, with symbols for the truth values;
* `TruthTable.binaryLines` — the header and a line of binary digits for each row;
* `unlines` — lines as one text.
-/

namespace Propositional

/-- Lines as one text, each ended by a line feed. -/
def unlines (lines : List String) : String := String.join (lines.map (· ++ "\n"))

namespace TruthTable

/-- The first line of a table. -/
def header (t : TruthTable) : String := " ".intercalate (t.names ++ [t.label])

/-- The rows with their values, or only those whose value is true. -/
def shownRows (onlyOnes : Bool) (t : TruthTable) : List (List Bool × Bool) :=
  (t.rows.zip t.values).filter fun row => !onlyOnes || row.2

/-- The line of one row. -/
def formatRow (trueSymbol falseSymbol : String) (row : List Bool × Bool) : String :=
  " ".intercalate ((row.1 ++ [row.2]).map fun value => if value then trueSymbol else falseSymbol)

/-- The lines of a table. -/
def format (t : TruthTable) (trueSymbol falseSymbol : String) (onlyOnes : Bool) : List String :=
  t.header :: (t.shownRows onlyOnes).map (formatRow trueSymbol falseSymbol)

/-- The lines of a table in binary digits. -/
def binaryLines (t : TruthTable) (onlyOnes : Bool) : List String :=
  let shown := if onlyOnes then pick t.cells t.values else t.cells
  t.header :: shown.map fun row => " ".intercalate (row.map toString)

end TruthTable

end Propositional
