import Propositional.Token

/-!
# Formulas

* `Formula` — the syntax trees of propositional logic, with a node for written parentheses;
* `Formula.connect`, `Formula.negateBy` — nodes built from an operator given as a token kind,
  which fail on a kind that is no such operator (`NodeError`);
* `Formula.leaves` — the leaves from left to right;
* `Formula.negTimes` — a formula under a number of negations.
-/

namespace Propositional

/-- The syntax tree of a formula.  Parentheses written in the text are kept as a `group` node.  A
`foreign` leaf is a node of another library, known by its type name only: every tree walk refuses
it. -/
inductive Formula where
  | var (name : String)
  | const (value : Bool)
  | neg (operand : Formula)
  | binary (c : Connective) (left right : Formula)
  | group (inner : Formula)
  | foreign (typeName : String)
  deriving DecidableEq, Repr, Inhabited

/-- Why a node cannot be built. -/
inductive NodeError where
  | notBinary (kind : TokenKind)
  | notUnary (kind : TokenKind)
  deriving DecidableEq, Repr

/-- The wording of a node error. -/
def NodeError.message : NodeError → String
  | notBinary kind => "TokenKind." ++ kind.label ++ " is not a binary operator"
  | notUnary kind => "TokenKind." ++ kind.label ++ " is not a unary operator"

namespace Formula

/-- The node of a binary operator given as a token kind. -/
def connect (kind : TokenKind) (left right : Formula) : Except NodeError Formula :=
  match kind.connective? with
  | some c => .ok (binary c left right)
  | none => .error (.notBinary kind)

/-- The node of a unary operator given as a token kind; negation is the only one. -/
def negateBy (kind : TokenKind) (operand : Formula) : Except NodeError Formula :=
  if kind = .negation then .ok (neg operand) else .error (.notUnary kind)

/-- A formula under `n` negations. -/
def negTimes : Nat → Formula → Formula
  | 0, f => f
  | n + 1, f => negTimes n (neg f)

/-- The leaves of a formula from left to right. -/
def leaves : Formula → List Formula
  | neg f => f.leaves
  | binary _ l r => l.leaves ++ r.leaves
  | group f => f.leaves
  | leaf => [leaf]

end Formula

end Propositional
