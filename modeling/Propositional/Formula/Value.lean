import Propositional.Formula.Walk

/-!
# The value of a formula

* `TokenKind.applyBinary` — the truth function of a token kind;
* `Formula.eval` — the value under a partial assignment, by a walk: no operand is skipped, and the
  leftmost leaf without value is reported;
* `Formula.denote` — the classical value under a valuation, by recursion.
-/

namespace Propositional

/-- A partial assignment of truth values to names. -/
abbrev Assignment := String → Option Bool

/-- The truth function of a token kind; only the connectives have one. -/
def TokenKind.applyBinary (kind : TokenKind) (a b : Bool) : Except EvalError Bool :=
  match kind.connective? with
  | some c => .ok (c.apply a b)
  | none => .error (.notConnective kind)

/-- Truth values under a partial assignment. -/
def valueAlgebra (assignment : Assignment) : Algebra Bool where
  var name :=
    match assignment name with
    | some value => .ok value
    | none => .error (.unassigned name)
  const := id
  neg := not
  binary := Connective.apply
  group := id

namespace Formula

/-- The value of a formula under a partial assignment. -/
def eval (assignment : Assignment) (f : Formula) : Except EvalError Bool :=
  (valueAlgebra assignment).run f

/-- The classical value of a formula under a valuation; a foreign leaf counts as false. -/
def denote (valuation : String → Bool) : Formula → Bool
  | var name => valuation name
  | const value => value
  | foreign _ => false
  | neg f => !f.denote valuation
  | group f => f.denote valuation
  | binary c l r => c.apply (l.denote valuation) (r.denote valuation)

end Formula

end Propositional
