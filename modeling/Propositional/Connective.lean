/-!
# The binary connectives of propositional logic

* `Connective` — conjunction, disjunction, implication, biconditional;
* `Connective.apply` — their truth functions;
* `Connective.strength` — how tightly each binds, from the biconditional (loosest) to
  conjunction (tightest).
-/

namespace Propositional

/-- A connective with two operands. -/
inductive Connective where
  | conj
  | disj
  | imp
  | iff
  deriving DecidableEq, Repr, Inhabited

namespace Connective

/-- The truth function of a connective; implication is material. -/
def apply : Connective → Bool → Bool → Bool
  | conj, a, b => a && b
  | disj, a, b => a || b
  | imp, a, b => !a || b
  | iff, a, b => a == b

/-- Binding strength: of two neighbouring connectives the stronger takes its operands first. -/
def strength : Connective → Nat
  | iff => 1
  | imp => 2
  | disj => 3
  | conj => 4

theorem strength_injective {c d : Connective} (h : c.strength = d.strength) : c = d := by
  cases c <;> cases d <;> first | rfl | cases h

end Connective

end Propositional
