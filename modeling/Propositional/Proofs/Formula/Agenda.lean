import Mathlib.Logic.Relation
import Propositional.Formula.Walk
import Propositional.Proofs.Result

/-!
# Walking a formula with an agenda

A walk need not know the postfix order beforehand.  It can keep an agenda of what is still to be done:
an operator that is met puts its operands on the agenda, and behind them itself, to be visited when
their values lie on the stack.  This is how a loop without recursion goes through a formula.

* `Task`, `Walker` — what is still to be done, and the values so far;
* `Walker.step`, `Walker.run` — one round of the loop, and the loop; each round leaves less to do
  (`Walker.weight_step_lt`);
* `Algebra.finish` — what the tasks make of a stack, by recursion on the formulas;
* `Walker.finish_eq_step` — one round does not change that; `Walker.Reaches.finish_eq` — nor do many;
* `Walker.run_ofFormula` — so the loop ends with the value of the formula as the only one on the stack, or
  with the error of the recursion;
* `Walker.Reaches.stack_eq`, `Walker.Reaches.fold_eq_error` — the same on the way;
* `Algebra.foldlM_visits`, `Algebra.fold_eq_error_of_visit` — and for the walk in postfix order;
* `Visit.arity` — how many values a visit takes; `Walker.Reaches.arity_le`, `Algebra.arity_le_of_visit` — they
  always lie on the stack.
-/

namespace Propositional

/-- Something that a walk has still to do: to meet a formula, or to visit a node whose operands have their
values on the stack. -/
inductive Task where
  | meet (f : Formula)
  | visit (v : Visit)
  deriving DecidableEq, Repr

/-- A walk on its way: the tasks ahead, the next one first, and the values so far, the latest first. -/
structure Walker (α : Type) where
  agenda : List Task
  stack : List α
  deriving DecidableEq, Repr

/-! ### What there is to do -/

/-- How many rounds a formula takes at most. -/
def Formula.weight : Formula → Nat
  | var _ => 1
  | const _ => 1
  | foreign _ => 1
  | neg f => f.weight + 2
  | group f => f.weight + 2
  | binary _ l r => l.weight + r.weight + 2

/-- How many rounds a task takes at most. -/
def Task.weight : Task → Nat
  | meet f => f.weight
  | visit _ => 1

/-- How many rounds an agenda takes at most. -/
def agendaWeight : List Task → Nat
  | [] => 0
  | task :: agenda => task.weight + agendaWeight agenda

namespace Walker

variable {α : Type} {A : Algebra α} {opens : Bool}

/-- A walk at the beginning of a formula. -/
def ofFormula (f : Formula) : Walker α := ⟨[.meet f], []⟩

/-- How many rounds a walk takes at most. -/
def weight (w : Walker α) : Nat := agendaWeight w.agenda

/-- Do the next task.  If the walk opens groups, what a group encloses takes its place on the agenda;
otherwise the group is visited later, as an operator is. -/
def step (A : Algebra α) (opens : Bool) : Walker α → Except EvalError (Walker α)
  | ⟨[], stack⟩ => .ok ⟨[], stack⟩
  | ⟨.meet (.neg f) :: agenda, stack⟩ => .ok ⟨.meet f :: .visit .negate :: agenda, stack⟩
  | ⟨.meet (.binary c l r) :: agenda, stack⟩ =>
    .ok ⟨.meet l :: .meet r :: .visit (.connect c) :: agenda, stack⟩
  | ⟨.meet (.group f) :: agenda, stack⟩ =>
    .ok ⟨.meet f :: if opens then agenda else .visit .enclose :: agenda, stack⟩
  | ⟨.meet (.var name) :: agenda, stack⟩ => (A.step stack (.var name)).map (⟨agenda, ·⟩)
  | ⟨.meet (.const value) :: agenda, stack⟩ => (A.step stack (.const value)).map (⟨agenda, ·⟩)
  | ⟨.meet (.foreign typeName) :: agenda, stack⟩ =>
    (A.step stack (.foreign typeName)).map (⟨agenda, ·⟩)
  | ⟨.visit v :: agenda, stack⟩ => (A.step stack v).map (⟨agenda, ·⟩)

/-- A visit is one round. -/
theorem weight_lt_of_visit {task : Task} {agenda : List Task} {stack : List α}
    {visited : Except EvalError (List α)} {w : Walker α} (htask : 0 < task.weight)
    (h : visited.map (Walker.mk agenda) = .ok w) : w.weight < weight ⟨task :: agenda, stack⟩ := by
  obtain ⟨later, _, rfl⟩ := map_eq_ok_iff.1 h
  simp only [weight, agendaWeight]
  omega

/-- Each round leaves less to do. -/
theorem weight_step_lt {task : Task} {agenda : List Task} {stack : List α} {w : Walker α}
    (h : step A opens ⟨task :: agenda, stack⟩ = .ok w) :
    w.weight < weight ⟨task :: agenda, stack⟩ := by
  cases task with
  | visit v => exact weight_lt_of_visit Nat.one_pos h
  | meet f =>
    cases f with
    | var name => exact weight_lt_of_visit Nat.one_pos h
    | const value =>
      have h : (A.step stack (.const value)).map (Walker.mk agenda) = .ok w := h
      exact weight_lt_of_visit Nat.one_pos h
    | foreign typeName => cases h
    | neg f =>
      cases h
      simp only [weight, agendaWeight, Task.weight, Formula.weight]
      omega
    | binary c l r =>
      cases h
      simp only [weight, agendaWeight, Task.weight, Formula.weight]
      omega
    | group f =>
      cases h
      cases opens
      · show weight ⟨.meet f :: .visit .enclose :: agenda, stack⟩ < _
        simp only [weight, agendaWeight, Task.weight, Formula.weight]
        omega
      · show weight ⟨.meet f :: agenda, stack⟩ < _
        simp only [weight, agendaWeight, Task.weight, Formula.weight]
        omega

/-- Do the tasks until none is left. -/
def run (A : Algebra α) (opens : Bool) : Walker α → Except EvalError (List α)
  | ⟨[], stack⟩ => .ok stack
  | ⟨task :: agenda, stack⟩ =>
    match _ : step A opens ⟨task :: agenda, stack⟩ with
    | .error e => .error e
    | .ok w => run A opens w
termination_by w => w.weight
decreasing_by exact weight_step_lt (by assumption)

section Rounds

variable {task : Task} {agenda : List Task} {stack : List α}

theorem run_of_step_error {e : EvalError} (h : step A opens ⟨task :: agenda, stack⟩ = .error e) :
    run A opens ⟨task :: agenda, stack⟩ = .error e := by
  rw [run]
  split <;> rename_i hstep
  · rw [h] at hstep
    cases hstep
    rfl
  · rw [h] at hstep
    cases hstep

theorem run_of_step_ok {w : Walker α} (h : step A opens ⟨task :: agenda, stack⟩ = .ok w) :
    run A opens ⟨task :: agenda, stack⟩ = w.run A opens := by
  rw [run]
  split <;> rename_i hstep
  · rw [h] at hstep
    cases hstep
  · rw [h] at hstep
    cases hstep
    rfl

end Rounds

end Walker

/-! ### What the tasks make of a stack -/

/-- What tasks make of a stack, each formula being taken as a whole. -/
def Algebra.finish {α : Type} (A : Algebra α) : List Task → List α → Except EvalError (List α)
  | [], stack => .ok stack
  | .meet f :: agenda, stack => do
    let a ← A.fold f
    A.finish agenda (a :: stack)
  | .visit v :: agenda, stack => do
    let stack ← A.step stack v
    A.finish agenda stack

/-- A walk may open groups if they mean what they enclose. -/
def Algebra.MayOpen {α : Type} (A : Algebra α) (opens : Bool) : Prop :=
  opens = true → ∀ a, A.group a = a

namespace Walker

variable {α : Type} {A : Algebra α} {opens : Bool}

/-- A round does not change what the tasks will have made of the stack in the end. -/
theorem finish_eq_step (hopens : A.MayOpen opens) (w : Walker α) :
    A.finish w.agenda w.stack =
      w.step A opens >>= fun next => A.finish next.agenda next.stack := by
  obtain ⟨agenda, stack⟩ := w
  cases agenda with
  | nil => rfl
  | cons task agenda =>
    cases task with
    | visit v =>
      rw [Algebra.finish, step]
      cases A.step stack v <;> rfl
    | meet f =>
      cases f with
      | var name =>
        rw [Algebra.finish, step, Algebra.fold, Algebra.step]
        cases A.var name <;> rfl
      | const value => rfl
      | foreign typeName => rfl
      | neg f =>
        show A.finish (.meet (.neg f) :: agenda) stack =
          A.finish (.meet f :: .visit .negate :: agenda) stack
        rw [Algebra.finish, Algebra.finish, Algebra.fold]
        cases A.fold f <;> rfl
      | binary c l r =>
        show A.finish (.meet (.binary c l r) :: agenda) stack =
          A.finish (.meet l :: .meet r :: .visit (.connect c) :: agenda) stack
        rw [Algebra.finish, Algebra.finish, Algebra.fold]
        cases A.fold l with
        | error e => rfl
        | ok a =>
          show _ = A.finish (.meet r :: .visit (.connect c) :: agenda) (a :: stack)
          rw [Algebra.finish]
          cases A.fold r <;> rfl
      | group f =>
        cases opens with
        | false =>
          show A.finish (.meet (.group f) :: agenda) stack =
            A.finish (.meet f :: .visit .enclose :: agenda) stack
          rw [Algebra.finish, Algebra.finish, Algebra.fold]
          cases A.fold f <;> rfl
        | true =>
          show A.finish (.meet (.group f) :: agenda) stack = A.finish (.meet f :: agenda) stack
          rw [Algebra.finish, Algebra.finish, Algebra.fold]
          cases A.fold f with
          | error e => rfl
          | ok a =>
            show A.finish agenda (A.group a :: stack) = A.finish agenda (a :: stack)
            rw [hopens rfl a]

/-- The loop makes of the stack what the tasks make of it. -/
theorem run_eq_finish (hopens : A.MayOpen opens) (w : Walker α) :
    w.run A opens = A.finish w.agenda w.stack := by
  induction w using run.induct A opens with
  | case1 stack => rw [run, Algebra.finish]
  | case2 task agenda stack e hstep =>
    rw [run_of_step_error hstep, finish_eq_step hopens, hstep]
    rfl
  | case3 task agenda stack next hstep ih =>
    rw [run_of_step_ok hstep, finish_eq_step hopens, hstep]
    exact ih

/-- **The loop** ends with the value of the formula as the only one on the stack, or with the error of the
recursion. -/
theorem run_ofFormula (hopens : A.MayOpen opens) (f : Formula) :
    (ofFormula f).run A opens = (A.fold f).map ([·]) := by
  rw [run_eq_finish hopens]
  show A.finish [.meet f] [] = _
  rw [Algebra.finish]
  cases A.fold f <;> rfl

/-- A formula that is met, whatever there is to do after it and whatever lies on the stack, puts its value
there, or ends the loop with its error. -/
theorem run_meet (hopens : A.MayOpen opens) (f : Formula) (agenda : List Task) (stack : List α) :
    run A opens ⟨.meet f :: agenda, stack⟩ =
      A.fold f >>= fun a => run A opens ⟨agenda, a :: stack⟩ := by
  simp only [run_eq_finish hopens]
  rfl

/-! ### On the way -/

/-- A walk comes to another one by rounds. -/
def Reaches (A : Algebra α) (opens : Bool) : Walker α → Walker α → Prop :=
  Relation.ReflTransGen fun v w => v.step A opens = .ok w

namespace Reaches

variable {w : Walker α} {f : Formula}

theorem finish_eq (hopens : A.MayOpen opens) {v : Walker α}
    (h : v.Reaches A opens w) : A.finish w.agenda w.stack = A.finish v.agenda v.stack := by
  induction h with
  | refl => rfl
  | @tail u w _ hstep ih =>
    rw [← ih, finish_eq_step hopens u, hstep]
    rfl

theorem finish_eq_fold (hopens : A.MayOpen opens)
    (h : (ofFormula f).Reaches A opens w) :
    A.finish w.agenda w.stack = (A.fold f).map ([·]) := by
  rw [h.finish_eq hopens, ← run_eq_finish hopens, run_ofFormula hopens]

/-- Where nothing is left to do, the value of the formula is the only one on the stack. -/
theorem stack_eq (hopens : A.MayOpen opens)
    (h : (ofFormula f).Reaches A opens w) (hagenda : w.agenda = []) :
    ∃ a, A.fold f = .ok a ∧ w.stack = [a] := by
  have hfinish := h.finish_eq_fold hopens
  rw [hagenda, Algebra.finish] at hfinish
  obtain ⟨a, hfold, hstack⟩ := map_eq_ok_iff.1 hfinish.symm
  exact ⟨a, hfold, hstack.symm⟩

/-- A round that fails reports the error of the recursion. -/
theorem fold_eq_error (hopens : A.MayOpen opens)
    (h : (ofFormula f).Reaches A opens w) {e : EvalError} (hstep : w.step A opens = .error e) :
    A.fold f = .error e := by
  have hfinish := h.finish_eq_fold hopens
  rw [finish_eq_step hopens, hstep] at hfinish
  exact map_eq_error_iff.1 hfinish.symm

end Reaches

end Walker

/-! ### The walk in postfix order -/

namespace Algebra

variable {α : Type} {A : Algebra α} {f : Formula}

/-- The walk in postfix order ends with the value of the formula as the only one on the stack, too. -/
theorem foldlM_visits (A : Algebra α) (f : Formula) :
    f.visits.foldlM A.step [] = (A.fold f).map ([·]) := by
  rw [Formula.visits, foldlM_visitsThen]
  cases A.fold f <;> rfl

/-- A visit that fails reports the error of the recursion. -/
theorem fold_eq_error_of_visit {before after : List Visit} {v : Visit}
    (hvisits : f.visits = before ++ v :: after) {stack : List α}
    (hbefore : before.foldlM A.step [] = .ok stack) {e : EvalError}
    (hstep : A.step stack v = .error e) : A.fold f = .error e := by
  have hfold := foldlM_visits A f
  rw [hvisits, List.foldlM_append, hbefore] at hfold
  change (v :: after).foldlM A.step stack = _ at hfold
  rw [List.foldlM_cons, hstep] at hfold
  exact map_eq_error_iff.1 hfold.symm

/-- No operator lacks an operand in the recursion. -/
theorem fold_ne_unbalanced (hvar : ∀ name, A.var name ≠ .error .unbalanced) (f : Formula) :
    A.fold f ≠ .error .unbalanced := by
  induction f with
  | var name => exact hvar name
  | const value => simp [fold]
  | foreign typeName => simp [fold]
  | neg f ih => rwa [fold, Ne, map_eq_error_iff]
  | group f ih => rwa [fold, Ne, map_eq_error_iff]
  | binary c l r ihl ihr =>
    rw [fold, Ne, bind_eq_error_iff]
    rintro (hl | ⟨a, _, hr⟩)
    · exact ihl hl
    · rcases bind_eq_error_iff.1 hr with hr | ⟨b, _, hb⟩
      · exact ihr hr
      · cases hb

end Algebra

/-! ### Operands on the stack -/

/-- How many values a visit takes from the stack. -/
def Visit.arity : Visit → Nat
  | var _ => 0
  | const _ => 0
  | foreign _ => 0
  | negate => 1
  | connect _ => 2
  | enclose => 1

/-- A visit lacks an operand exactly if it takes more values than there are. -/
theorem Algebra.step_eq_unbalanced_iff {α : Type} {A : Algebra α}
    (hvar : ∀ name, A.var name ≠ .error .unbalanced) {stack : List α} {v : Visit} :
    A.step stack v = .error .unbalanced ↔ stack.length < v.arity := by
  cases v with
  | var name => simpa [step, Visit.arity, map_eq_error_iff] using hvar name
  | const value => simp [step, Visit.arity]
  | foreign typeName => simp [step, Visit.arity]
  | negate => cases stack <;> simp [step, Visit.arity]
  | enclose => cases stack <;> simp [step, Visit.arity]
  | connect c => rcases stack with _ | ⟨b, _ | ⟨a, stack⟩⟩ <;> simp [step, Visit.arity]

section Operands

variable {α : Type} {A : Algebra α} {opens : Bool} {f : Formula}

/-- The loop visits no node before its operands have their values on the stack. -/
theorem Walker.Reaches.arity_le (hopens : A.MayOpen opens)
    (hvar : ∀ name, A.var name ≠ .error .unbalanced) {w : Walker α}
    (h : (ofFormula f).Reaches A opens w) {v : Visit} {agenda : List Task}
    (hagenda : w.agenda = .visit v :: agenda) : v.arity ≤ w.stack.length := by
  refine Nat.le_of_not_lt fun hless => ?_
  have hlacks := (Algebra.step_eq_unbalanced_iff hvar).2 hless
  have hstep : w.step A opens = .error .unbalanced := by
    obtain ⟨_, stack⟩ := w
    cases hagenda
    rw [step, hlacks]
    rfl
  exact Algebra.fold_ne_unbalanced hvar f (h.fold_eq_error hopens hstep)

/-- Nor does the walk in postfix order. -/
theorem Algebra.arity_le_of_visit (hvar : ∀ name, A.var name ≠ .error .unbalanced)
    {before after : List Visit} {v : Visit} (hvisits : f.visits = before ++ v :: after)
    {stack : List α} (hbefore : before.foldlM A.step [] = .ok stack) : v.arity ≤ stack.length := by
  refine Nat.le_of_not_lt fun hless => ?_
  have hlacks := (step_eq_unbalanced_iff hvar).2 hless
  exact fold_ne_unbalanced hvar f (fold_eq_error_of_visit hvisits hbefore hlacks)

end Operands

end Propositional
