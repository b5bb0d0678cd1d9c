import Propositional.Diagnostic

/-!
# Walking a formula without recursion

A walk visits the nodes of a formula in postfix order: the leaves from left to right, and every
operator after its operands.  It keeps the values of the operands on a stack, so it needs no
recursion however deep the formula is.

* `Visit`, `Formula.visits` — the nodes in postfix order;
* `Algebra` — what the nodes mean;
* `Algebra.step`, `Algebra.run` — one visit, and the whole walk on a stack;
* `Algebra.fold` — the same meaning by recursion on the formula.
-/

namespace Propositional

/-- A node as a walk meets it. -/
inductive Visit where
  | var (name : String)
  | const (value : Bool)
  | foreign (typeName : String)
  | negate
  | connect (c : Connective)
  | enclose
  deriving DecidableEq, Repr

/-- The visits of a formula, followed by those in `later`. -/
def Formula.visitsThen (later : List Visit) : Formula → List Visit
  | var name => .var name :: later
  | const value => .const value :: later
  | foreign typeName => .foreign typeName :: later
  | neg f => f.visitsThen (.negate :: later)
  | group f => f.visitsThen (.enclose :: later)
  | binary c l r => l.visitsThen (r.visitsThen (.connect c :: later))

/-- The nodes of a formula in postfix order. -/
def Formula.visits (f : Formula) : List Visit := f.visitsThen []

/-- A meaning of formulas in a type of values.  Names may fail to have one. -/
structure Algebra (α : Type) where
  var : String → Except EvalError α
  const : Bool → α
  neg : α → α
  binary : Connective → α → α → α
  group : α → α

namespace Algebra

/-- Visit one node: its operands are taken from the stack, and its value is put there. -/
def step {α : Type} (A : Algebra α) : List α → Visit → Except EvalError (List α)
  | stack, .var name => (A.var name).map (· :: stack)
  | stack, .const value => .ok (A.const value :: stack)
  | _, .foreign typeName => .error (.unknownNode typeName)
  | a :: stack, .negate => .ok (A.neg a :: stack)
  | b :: a :: stack, .connect c => .ok (A.binary c a b :: stack)
  | a :: stack, .enclose => .ok (A.group a :: stack)
  | _, _ => .error .unbalanced

/-- The value on a stack that holds exactly one. -/
def single {α : Type} : List α → Except EvalError α
  | [a] => .ok a
  | _ => .error .unbalanced

/-- Walk over a sequence of nodes from an empty stack. -/
def runVisits {α : Type} (A : Algebra α) (visits : List Visit) : Except EvalError α :=
  (visits.foldlM A.step []).bind single

/-- The value of a formula, by a walk. -/
def run {α : Type} (A : Algebra α) (f : Formula) : Except EvalError α := A.runVisits f.visits

/-- The value of a formula, by recursion.  Left operands come first, and the first failure counts. -/
def fold {α : Type} (A : Algebra α) : Formula → Except EvalError α
  | .var name => A.var name
  | .const value => .ok (A.const value)
  | .foreign typeName => .error (.unknownNode typeName)
  | .neg f => (A.fold f).map A.neg
  | .group f => (A.fold f).map A.group
  | .binary c l r => do
    let a ← A.fold l
    let b ← A.fold r
    return A.binary c a b

end Algebra

/-! ### The walk agrees with the recursion -/

namespace Algebra

variable {α : Type} (A : Algebra α)

theorem foldlM_visitsThen (f : Formula) (later : List Visit) (stack : List α) :
    (f.visitsThen later).foldlM A.step stack =
      (A.fold f).bind fun a => later.foldlM A.step (a :: stack) := by
  induction f generalizing later stack with
  | var name =>
    cases h : A.var name <;> simp [Formula.visitsThen, fold, step, h, bind, Except.bind, Except.map]
  | const value => rfl
  | foreign typeName => rfl
  | neg f ih =>
    rw [Formula.visitsThen, ih, fold]
    cases A.fold f <;> rfl
  | group f ih =>
    rw [Formula.visitsThen, ih, fold]
    cases A.fold f <;> rfl
  | binary c l r ihl ihr =>
    rw [Formula.visitsThen, ihl, fold]
    cases A.fold l with
    | error e => rfl
    | ok a =>
      show (r.visitsThen (.connect c :: later)).foldlM A.step (a :: stack) = _
      rw [ihr]
      cases A.fold r <;> rfl

theorem run_eq_fold (f : Formula) : A.run f = A.fold f := by
  rw [run, runVisits, Formula.visits, foldlM_visitsThen]
  cases A.fold f <;> rfl

end Algebra

end Propositional
