import Propositional.Proofs.Formula.Agenda
import Propositional.Proofs.Formula.Written

/-!
# Writing a formula from its parts

The canonical text of a formula is put together on a stack of parts: a leaf adds its text as a part, and an
operator takes the texts of its operands away and adds the text that it makes of them.

* `labelAlgebra_var_ne_unbalanced`, `mayOpen_labelAlgebra` — what the walks over a formula need to know of the
  texts;
* `run_meet_label` — a formula on an agenda adds its text to the parts, whatever else there is to do;
* `label_by_parts` — the text is the one that the recursion writes, or else the leftmost foreign leaf is
  reported; on the way no operator lacks a part, and in the end there is one.
-/

namespace Propositional

theorem labelAlgebra_var_ne_unbalanced (name : String) :
    labelAlgebra.var name ≠ .error .unbalanced := by
  simp [labelAlgebra]

/-- Groups are written with their parentheses, so they have to be visited. -/
theorem mayOpen_labelAlgebra : labelAlgebra.MayOpen false := by
  intro hopens
  cases hopens

/-- A formula that is met adds its text to the parts, whatever there is to do after it and whatever parts
there are. -/
theorem run_meet_label (f : Formula) (agenda : List Task) (parts : List String) :
    Walker.run labelAlgebra false ⟨.meet f :: agenda, parts⟩ =
      f.label >>= fun text => Walker.run labelAlgebra false ⟨agenda, text :: parts⟩ := by
  rw [Walker.run_meet mayOpen_labelAlgebra, label_eq_fold]

/-- **The canonical text.**  Of a formula without foreign leaves it is the text that the recursion writes;
otherwise the leftmost foreign leaf is reported.  A loop with an agenda finds it whatever else is on the agenda
and among the parts, and so does the walk in postfix order; neither takes a part when there is none, and when
nothing is left to do the text is the only part. -/
theorem label_by_parts (f : Formula) :
    ((∀ typeName, .foreign typeName ∉ f.leaves) → f.label = .ok (String.ofList f.written)) ∧
    (∀ (before after : List Formula) (typeName : String),
      f.leaves = before ++ .foreign typeName :: after → (∀ other, .foreign other ∉ before) →
      f.label = .error (.unknownNode typeName)) ∧
    (∀ typeName, (EvalError.unknownNode typeName).diagnostic =
      ⟨.evaluator, "Unknown node type " ++ typeName, none⟩) ∧
    (∀ agenda parts, Walker.run labelAlgebra false ⟨.meet f :: agenda, parts⟩ =
      f.label >>= fun text => Walker.run labelAlgebra false ⟨agenda, text :: parts⟩) ∧
    (Walker.ofFormula f).run labelAlgebra false = f.label.map ([·]) ∧
    (∀ w, (Walker.ofFormula f).Reaches labelAlgebra false w →
      (∀ v agenda, w.agenda = .visit v :: agenda → v.arity ≤ w.stack.length) ∧
      (w.agenda = [] → ∃ text, f.label = .ok text ∧ w.stack = [text])) ∧
    f.visits.foldlM labelAlgebra.step [] = f.label.map ([·]) ∧
    ∀ before v after parts, f.visits = before ++ v :: after →
      before.foldlM labelAlgebra.step [] = .ok parts → v.arity ≤ parts.length := by
  refine ⟨?native, ?foreign, fun _ => rfl, run_meet_label f, ?loop, ?way, ?visits, ?balanced⟩
  case native =>
    intro hnone
    rw [label_eq_match, findSome?_stranger?_eq_none hnone]
  case foreign =>
    intro before after typeName hleaves hbefore
    rw [label_eq_match, hleaves, findSome?_stranger?_append hbefore]
  case loop => rw [Walker.run_ofFormula mayOpen_labelAlgebra, label_eq_fold]
  case way =>
    intro w hreaches
    refine ⟨fun v agenda => hreaches.arity_le mayOpen_labelAlgebra labelAlgebra_var_ne_unbalanced, ?_⟩
    rw [label_eq_fold]
    exact hreaches.stack_eq mayOpen_labelAlgebra
  case visits => rw [Algebra.foldlM_visits, label_eq_fold]
  case balanced =>
    intro before v after parts hvisits hbefore
    exact Algebra.arity_le_of_visit labelAlgebra_var_ne_unbalanced hvisits hbefore

/-- Only the group is written with parentheses, even where a name has one of its own; and of two foreign
leaves the left one is reported, though the right one stands less deep. -/
theorem label_by_parts_nested :
    (∃ f, f = Formula.binary .imp (.neg (.group (.binary .disj (.var "p") (.var "(q")))) (.const true) ∧
      (∀ typeName, .foreign typeName ∉ f.leaves) ∧ f.label = .ok "¬(p ∨ (q) → ⊤") ∧
    ∃ f, f = Formula.binary .conj (.neg (.group (.binary .iff (.var "p") (.foreign "Expr"))))
        (.foreign "Node") ∧
      f.leaves = [.var "p"] ++ .foreign "Expr" :: [.foreign "Node"] ∧
      f.label = .error (.unknownNode "Expr") := by
  refine ⟨⟨_, rfl, ?_, ?_⟩, ⟨_, rfl, rfl, ?_⟩⟩
  · simp [Formula.leaves]
  · refine ((label_by_parts _).1 (by simp [Formula.leaves])).trans ?_
    decide +kernel
  · exact (label_by_parts _).2.1 [.var "p"] [.foreign "Node"] "Expr" rfl (by simp)

end Propositional
