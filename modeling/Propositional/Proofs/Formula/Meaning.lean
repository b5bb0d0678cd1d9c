import Propositional.Formula.Value
import Propositional.Proofs.Formula.Shape

/-!
# The classical meaning of a formula

* `Formula.Holds` — when a formula is true under a valuation, in the terms of the logic that the
  connectives are named for;
* `denote_eq_true_iff_holds` — the truth value of a formula says whether it holds;
* `denote_congr` — only the names that occur matter;
* `eval_eq_denote` — evaluation under an assignment that covers the names gives the truth value;
* `Formula.stranger?` — a foreign leaf is an error; `findSome?_stranger?_append` — that of the first foreign
  leaf is the one that counts;
* `names_eq_match` — the names of a formula are its occurrences of names, added one after the other,
  unless a leaf is foreign; then the leftmost such leaf is reported;
* `mem_foldl_insertName_iff`, `nodup_foldl_insertName` — so these are the names that occur, each once.
-/

namespace Propositional

namespace Formula

/-- When a formula is true under a valuation. -/
def Holds (valuation : String → Bool) : Formula → Prop
  | var name => valuation name = true
  | const value => value = true
  | foreign _ => False
  | neg f => ¬ f.Holds valuation
  | group f => f.Holds valuation
  | binary .conj l r => l.Holds valuation ∧ r.Holds valuation
  | binary .disj l r => l.Holds valuation ∨ r.Holds valuation
  | binary .imp l r => l.Holds valuation → r.Holds valuation
  | binary .iff l r => (l.Holds valuation ↔ r.Holds valuation)

/-- The truth value of a formula says whether it holds. -/
theorem denote_eq_true_iff_holds (valuation : String → Bool) (f : Formula) :
    f.denote valuation = true ↔ f.Holds valuation := by
  induction f with
  | var name => exact Iff.rfl
  | const value => exact Iff.rfl
  | foreign typeName => simp [denote, Holds]
  | neg f ih =>
    rw [Holds, ← ih]
    simp [denote]
  | group f ih => exact ih
  | binary c l r ihl ihr =>
    -- what is left is the truth table of the connective
    cases c <;> rw [Holds, ← ihl, ← ihr, denote] <;>
      cases l.denote valuation <;> cases r.denote valuation <;> decide

/-- Only the names that occur matter. -/
theorem denote_congr {f : Formula} {v w : String → Bool}
    (h : ∀ name ∈ f.occurrences, v name = w name) : f.denote v = f.denote w := by
  induction f with
  | var name => exact h name (List.mem_singleton_self name)
  | const value => rfl
  | foreign typeName => rfl
  | neg f ih => rw [denote, denote, ih h]
  | group f ih => rw [denote, denote, ih h]
  | binary c l r ihl ihr =>
    have hl : l.denote v = l.denote w := ihl fun name hname => h name (List.mem_append_left _ hname)
    have hr : r.denote v = r.denote w := ihr fun name hname => h name (List.mem_append_right _ hname)
    rw [denote, denote, hl, hr]

/-- Evaluation under an assignment that covers the names gives the truth value. -/
theorem eval_eq_denote {f : Formula} (hnative : f.Native) {assignment : Assignment}
    {valuation : String → Bool}
    (h : ∀ name ∈ f.occurrences, assignment name = some (valuation name)) :
    f.eval assignment = .ok (f.denote valuation) := by
  rw [eval, Algebra.run_eq_fold]
  induction f with
  | var name =>
    have hname := h name (List.mem_singleton_self name)
    simp [Algebra.fold, valueAlgebra, hname, denote]
  | const value => rfl
  | foreign typeName => exact hnative.elim
  | neg f ih =>
    rw [Algebra.fold, ih hnative h]
    rfl
  | group f ih =>
    rw [Algebra.fold, ih hnative h]
    rfl
  | binary c l r ihl ihr =>
    have hl := ihl hnative.1 fun name hname => h name (List.mem_append_left _ hname)
    have hr := ihr hnative.2 fun name hname => h name (List.mem_append_right _ hname)
    rw [Algebra.fold, hl, hr]
    rfl

end Formula

/-! ### The names of a formula -/

theorem mem_insertName_iff {names : List String} {name x : String} :
    x ∈ insertName names name ↔ x ∈ names ∨ x = name := by
  unfold insertName
  split
  · rename_i h
    have hmem : name ∈ names := List.contains_iff_mem.1 h
    constructor
    · exact .inl
    · rintro (hx | rfl)
      · exact hx
      · exact hmem
  · simp

theorem nodup_insertName {names : List String} {name : String} (h : names.Nodup) :
    (insertName names name).Nodup := by
  unfold insertName
  split
  · exact h
  · rename_i hnot
    have hmem : name ∉ names := fun hmem => hnot (List.contains_iff_mem.2 hmem)
    refine List.nodup_append.2 ⟨h, by simp, ?_⟩
    intro a ha b hb hab
    rw [List.mem_singleton] at hb
    subst hab hb
    exact hmem ha

theorem mem_foldl_insertName_iff {names occurrences : List String} {x : String} :
    x ∈ occurrences.foldl insertName names ↔ x ∈ names ∨ x ∈ occurrences := by
  induction occurrences generalizing names with
  | nil => simp
  | cons name occurrences ih =>
    rw [List.foldl_cons, ih, mem_insertName_iff, List.mem_cons, or_assoc]

theorem nodup_foldl_insertName {names : List String} (h : names.Nodup)
    (occurrences : List String) : (occurrences.foldl insertName names).Nodup := by
  induction occurrences generalizing names with
  | nil => exact h
  | cons name occurrences ih => exact ih (nodup_insertName h)

/-- What keeps a leaf from being walked over. -/
def Formula.stranger? : Formula → Option EvalError
  | foreign typeName => some (.unknownNode typeName)
  | _ => none

/-- A formula without foreign leaves is walked over. -/
theorem Formula.Native.findSome?_stranger? {f : Formula} (h : f.Native) :
    f.leaves.findSome? Formula.stranger? = none := by
  induction f with
  | var name => rfl
  | const value => rfl
  | foreign typeName => exact h.elim
  | neg f ih => exact ih h
  | group f ih => exact ih h
  | binary c l r ihl ihr =>
    rw [Formula.leaves, List.findSome?_append, ihl h.1, ihr h.2]
    rfl

/-- Leaves none of which is foreign are walked over. -/
theorem findSome?_stranger?_eq_none {leaves : List Formula} (h : ∀ typeName, .foreign typeName ∉ leaves) :
    leaves.findSome? Formula.stranger? = none := by
  refine List.findSome?_eq_none_iff.2 fun leaf hleaf => ?_
  cases leaf with
  | foreign typeName => exact absurd hleaf (h typeName)
  | _ => rfl

/-- The first foreign one of some leaves is an error. -/
theorem findSome?_stranger?_append {before after : List Formula} {typeName : String}
    (h : ∀ other, .foreign other ∉ before) :
    (before ++ .foreign typeName :: after).findSome? Formula.stranger? =
      some (.unknownNode typeName) := by
  rw [List.findSome?_append, findSome?_stranger?_eq_none h]
  rfl

/-- The walk adds the occurrences of names one after the other, unless it comes to a foreign leaf. -/
theorem foldlM_collectName (f : Formula) (later : List Visit) (names : List String) :
    (f.visitsThen later).foldlM collectName names =
      match f.leaves.findSome? Formula.stranger? with
      | none => later.foldlM collectName (f.occurrences.foldl insertName names)
      | some e => .error e := by
  induction f generalizing later names with
  | var name => rfl
  | const value => rfl
  | foreign typeName => rfl
  | neg f ih =>
    rw [Formula.visitsThen, ih, Formula.leaves]
    cases f.leaves.findSome? Formula.stranger? <;> rfl
  | group f ih =>
    rw [Formula.visitsThen, ih, Formula.leaves]
    cases f.leaves.findSome? Formula.stranger? <;> rfl
  | binary c l r ihl ihr =>
    rw [Formula.visitsThen, ihl, ihr, Formula.leaves, List.findSome?_append, Formula.occurrences,
      List.foldl_append]
    cases l.leaves.findSome? Formula.stranger? with
    | some e => rfl
    | none => cases r.leaves.findSome? Formula.stranger? <;> rfl

/-- The names of a formula are its occurrences of names, each once, unless a leaf is foreign. -/
theorem names_eq_match (f : Formula) :
    f.names =
      match f.leaves.findSome? Formula.stranger? with
      | none => .ok (f.occurrences.foldl insertName [])
      | some e => .error e := by
  rw [Formula.names, Formula.visits, foldlM_collectName]
  rfl

theorem names_eq_foldl {f : Formula} (h : f.Native) :
    f.names = .ok (f.occurrences.foldl insertName []) := by
  rw [names_eq_match, h.findSome?_stranger?]

end Propositional
