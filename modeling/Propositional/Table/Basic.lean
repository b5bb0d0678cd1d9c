import Propositional.Formula.Label
import Propositional.Formula.Parser
import Propositional.Table.Assignment
import Propositional.Token.Scanner

/-!
# Truth tables

* `TruthTable` — the variables, the canonical text of the formula, the rows and the values;
* `truthTable` — the table of a text;
* `TruthTable.isTautology`, `TruthTable.isContradiction`, `TruthTable.isSatisfiable` — verdicts;
* `TruthTable.ones` — the rows on which the formula is true, with their patterns;
* `TruthTable.array` — rows and values as numbers.

A table may also be put together by hand, and then its parts need not fit.
-/

namespace Propositional

/-- A truth table: a row of values for each assignment of the variables, and the value of the
formula for each row. -/
structure TruthTable where
  names : List String
  label : String
  rows : List (List Bool)
  values : List Bool
  deriving DecidableEq, Repr, Inhabited

/-! ### The table of a formula -/

/-- The table of a formula whose variables are given. -/
def Formula.tableOver (names : List String) (f : Formula) : Except FormulaError TruthTable := do
  let rows := bitRows names.length
  let values ← (f.evalRows names rows).mapError .eval
  let label ← f.label.mapError .eval
  return ⟨names, label, rows, values⟩

/-- The table of a formula.  With a bound on the number of variables, formulas with more of them
have no table. -/
def Formula.table (f : Formula) (maxVars : Option Int) : Except FormulaError TruthTable := do
  let names ← f.names.mapError .eval
  match maxVars.filter fun allowed => decide (allowed < (names.length : Int)) with
  | some allowed => .error (.tooManyVariables names.length allowed)
  | none => f.tableOver names

/-- The formula that a text writes. -/
def readText (source : String) (strict : Bool) : Except FormulaError Formula := do
  let tokens ← (lex source).mapError .lex
  (parse tokens strict).mapError .parse

/-- The table of the formula that a text writes. -/
def truthTable (source : String) (strict : Bool) (maxVars : Option Int) :
    Except FormulaError TruthTable := do
  let f ← readText source strict
  f.table maxVars

/-- Why a part of a table cannot be shown. -/
inductive TableError where
  /-- A selection has another length than what is selected from. -/
  | selection
  /-- Rows and values differ in number. -/
  | shape
  deriving DecidableEq, Repr

namespace TruthTable

/-! ### Verdicts -/

/-- Are all values true? -/
def isTautology (t : TruthTable) : Bool := t.values.all id

/-- Is no value true? -/
def isContradiction (t : TruthTable) : Bool := !t.values.any id

/-- Is some value true? -/
def isSatisfiable (t : TruthTable) : Bool := t.values.any id

/-! ### Selections -/

/-- The bit patterns for the number of variables. -/
def patterns (t : TruthTable) : List String := Propositional.patterns t.names.length

/-- The items at the places where a flag is set. -/
def pick {α : Type} (items : List α) (flags : List Bool) : List α :=
  ((items.zip flags).filter Prod.snd).map Prod.fst

/-- The items at the places where a flag is set; there must be as many flags as items, or none. -/
def select {α : Type} (items : List α) (flags : List Bool) : Except TableError (List α) :=
  if flags.length = items.length || flags.isEmpty then .ok (pick items flags)
  else .error .selection

/-- The rows on which the formula is true, and their patterns. -/
def ones (t : TruthTable) : Except TableError (List (List Bool) × List String) := do
  let rows ← select t.rows t.values
  let patterns ← select t.patterns t.values
  return (rows, patterns)

/-- The rows as numbers, each followed by the value, as far as both go. -/
def cells (t : TruthTable) : List (List Nat) :=
  t.rows.zipWith (fun row value => (row ++ [value]).map Bool.toNat) t.values

/-- All rows and values as numbers. -/
def array (t : TruthTable) : Except TableError (List (List Nat)) :=
  if t.rows.length = t.values.length then .ok t.cells else .error .shape

end TruthTable

end Propositional
