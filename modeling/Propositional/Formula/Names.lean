import Propositional.Formula.Walk

/-!
# The variables of a formula

* `Formula.names` — the names that occur, each once, in the order of their first occurrence
  from left to right, by a walk;
* `Formula.occurrences` — all occurrences from left to right, by recursion.
-/

namespace Propositional

/-- Add a name to a list of names unless it is there already. -/
def insertName (names : List String) (name : String) : List String :=
  if names.contains name then names else names ++ [name]

/-- Visit one node, with the names met before. -/
def collectName : List String → Visit → Except EvalError (List String)
  | names, .var name => .ok (insertName names name)
  | _, .foreign typeName => .error (.unknownNode typeName)
  | names, _ => .ok names

namespace Formula

/-- The names that occur in a formula, in the order of their first occurrence. -/
def names (f : Formula) : Except EvalError (List String) := f.visits.foldlM collectName []

/-- The occurrences of names from left to right. -/
def occurrences : Formula → List String
  | var name => [name]
  | const _ => []
  | foreign _ => []
  | neg f => f.occurrences
  | group f => f.occurrences
  | binary _ l r => l.occurrences ++ r.occurrences

end Formula

end Propositional
