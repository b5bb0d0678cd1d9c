import Propositional.Proofs.Formula.Agenda
import Propositional.Proofs.Formula.Meaning

/-!
# Evaluation under a partial assignment

Evaluation looks at every leaf, and the leftmost one that has no value decides what is reported; no operand
is skipped because another one settles the value.  The stack on which it works is never short of an operand.

* `Formula.fault?` — what keeps a leaf from having a value; `fault?_eq_some_iff` — the two ways;
* `fold_valueAlgebra` — the recursion gives the classical value, or the fault of the leftmost faulty leaf;
* `eval_leftmost_fault` — so does evaluation, in postfix order and with an agenda, and either way the stack
  holds the operands of each operator, and in the end the value alone.
-/

namespace Propositional

namespace Formula

/-- What keeps a leaf from having a value under an assignment. -/
def fault? (assignment : Assignment) : Formula → Option EvalError
  | var name => if (assignment name).isSome then none else some (.unassigned name)
  | foreign typeName => some (.unknownNode typeName)
  | _ => none

theorem fault?_eq_some_iff {assignment : Assignment} {leaf : Formula} {e : EvalError} :
    leaf.fault? assignment = some e ↔
      (∃ name, leaf = .var name ∧ assignment name = none ∧ e = .unassigned name) ∨
      ∃ typeName, leaf = .foreign typeName ∧ e = .unknownNode typeName := by
  cases leaf with
  | var name =>
    cases h : assignment name with
    | none => simp [fault?, h, eq_comm]
    | some value => simp [fault?, h]
  | foreign typeName => simp [fault?, eq_comm]
  | const _ => simp [fault?]
  | neg _ => simp [fault?]
  | group _ => simp [fault?]
  | binary _ _ _ => simp [fault?]

/-- The recursion gives the classical value of a formula, or the fault of its leftmost faulty leaf. -/
theorem fold_valueAlgebra (assignment : Assignment) (f : Formula) :
    (valueAlgebra assignment).fold f =
      match f.leaves.findSome? (fault? assignment) with
      | none => .ok (f.denote fun name => (assignment name).getD false)
      | some e => .error e := by
  induction f with
  | var name =>
    cases h : assignment name <;>
      simp [Algebra.fold, valueAlgebra, leaves, fault?, denote, h]
  | const value => rfl
  | foreign typeName => rfl
  | neg f ih =>
    rw [Algebra.fold, ih, leaves]
    cases f.leaves.findSome? (fault? assignment) <;> rfl
  | group f ih =>
    rw [Algebra.fold, ih, leaves]
    cases f.leaves.findSome? (fault? assignment) <;> rfl
  | binary c l r ihl ihr =>
    -- a fault on the left comes first, and only without one the right operand counts
    rw [Algebra.fold, ihl, ihr, leaves, List.findSome?_append]
    cases l.leaves.findSome? (fault? assignment) with
    | some e => rfl
    | none => cases r.leaves.findSome? (fault? assignment) <;> rfl

theorem fold_valueAlgebra_ne_unbalanced (assignment : Assignment) (f : Formula) :
    (valueAlgebra assignment).fold f ≠ .error .unbalanced := by
  refine Algebra.fold_ne_unbalanced (fun name => ?_) f
  cases h : assignment name <;> simp [valueAlgebra, h]

end Formula

theorem mayOpen_valueAlgebra (assignment : Assignment) (opens : Bool) :
    (valueAlgebra assignment).MayOpen opens :=
  fun _ _ => rfl

/-- **Evaluation** gives the classical value of a formula if every variable is assigned and no leaf is
foreign, and otherwise the error of the leftmost leaf that is not so.  In postfix order no operator is visited
without its operands on the stack, and in the end the value alone is left there; the same holds of the loop
that keeps an agenda and opens groups, which comes to an end. -/
theorem eval_leftmost_fault (assignment : Assignment) (f : Formula) :
    (f.eval assignment =
      match f.leaves.findSome? (Formula.fault? assignment) with
      | none => .ok (f.denote fun name => (assignment name).getD false)
      | some e => .error e) ∧
    (∀ (leaf : Formula) (e : EvalError), leaf.fault? assignment = some e ↔
      (∃ name, leaf = .var name ∧ assignment name = none ∧ e = .unassigned name) ∨
      ∃ typeName, leaf = .foreign typeName ∧ e = .unknownNode typeName) ∧
    (∀ name, (EvalError.unassigned name).diagnostic =
      ⟨.evaluator, "Variable '" ++ name ++ "' has no assigned value", none⟩) ∧
    (∀ typeName, (EvalError.unknownNode typeName).diagnostic =
      ⟨.evaluator, "Unknown node type " ++ typeName, none⟩) ∧
    f.visits.foldlM (valueAlgebra assignment).step [] = (f.eval assignment).map ([·]) ∧
    (∀ before v after stack, f.visits = before ++ v :: after →
      before.foldlM (valueAlgebra assignment).step [] = .ok stack →
      (valueAlgebra assignment).step stack v ≠ .error .unbalanced) ∧
    (Walker.ofFormula f).run (valueAlgebra assignment) true = (f.eval assignment).map ([·]) ∧
    ∀ w, (Walker.ofFormula f).Reaches (valueAlgebra assignment) true w →
      w.step (valueAlgebra assignment) true ≠ .error .unbalanced ∧
      (w.agenda = [] → ∃ value, f.eval assignment = .ok value ∧ w.stack = [value]) := by
  have hopens := mayOpen_valueAlgebra assignment true
  have heval : f.eval assignment = (valueAlgebra assignment).fold f := Algebra.run_eq_fold _ f
  have hbalanced := Formula.fold_valueAlgebra_ne_unbalanced assignment f
  rw [heval]
  refine ⟨Formula.fold_valueAlgebra assignment f, fun _ _ => Formula.fault?_eq_some_iff,
    fun _ => rfl, fun _ => rfl, Algebra.foldlM_visits _ f, ?_, Walker.run_ofFormula hopens f, ?_⟩
  · intro before v after stack hvisits hbefore hstep
    exact hbalanced (Algebra.fold_eq_error_of_visit hvisits hbefore hstep)
  · intro w hreaches
    exact ⟨fun hstep => hbalanced (hreaches.fold_eq_error hopens hstep), hreaches.stack_eq hopens⟩

/-- A false left operand does not settle a conjunction: the right operand is looked at, and the leftmost
of its faults is reported. -/
example : (Formula.binary .conj (.const false)
    (.binary .imp (.group (.foreign "Expr")) (.var "q"))).eval (fun _ => none) =
      .error (.unknownNode "Expr") := by
  rfl

end Propositional
