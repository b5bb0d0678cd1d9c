import Mathlib.Data.List.Basic
import Mathlib.Data.List.Induction
import Propositional.Proofs.Formula.Evaluation
import Propositional.Proofs.Formula.Printed

/-!
# The order of the names

The names of a formula stand in the order of the text: each where it occurs first among the leaves, and among
the tokens that were read.  A walk that comes to a foreign leaf stops there, whatever it is for.

* `Formula.name?` — the name at a leaf; `occurrences_eq_filterMap` — the occurrences of names are those of
  the leaves;
* `foldl_insertName_eq_eraseDups` — collecting names drops the later repetitions;
* `pairwise_collected` — what is collected stands in the order of the leaves;
* `Formula.gather` — the names by a loop over an agenda of formulas; `gather_eq_match` — what it gives for
  any agenda;
* `Algebra.errorOf?_run` — a walk that has a value for each name fails at the leftmost foreign leaf only;
* `exists_run_of_parse` — the tokens that a parser takes write the formula;
* `names_column_order` — the order of the names, and the leaf at which all walks stop.
-/

namespace Propositional

/-! ### The leaves that are names -/

namespace Formula

/-- The name at a leaf. -/
def name? : Formula → Option String
  | var name => some name
  | _ => none

theorem name?_eq_some_iff {leaf : Formula} {name : String} :
    leaf.name? = some name ↔ leaf = .var name := by
  cases leaf <;> simp [name?]

theorem occurrences_eq_filterMap (f : Formula) : f.occurrences = f.leaves.filterMap name? := by
  induction f with
  | var name => rfl
  | const value => rfl
  | foreign typeName => rfl
  | neg f ih => exact ih
  | group f ih => exact ih
  | binary c l r ihl ihr => rw [occurrences, leaves, List.filterMap_append, ihl, ihr]

end Formula

/-! ### Collected names -/

/-- Collecting names drops the later repetitions. -/
theorem foldl_insertName_eq_eraseDups (occurrences : List String) :
    occurrences.foldl insertName [] = occurrences.eraseDups := by
  induction occurrences using List.reverseRecOn with
  | nil => rfl
  | append_singleton occurrences name ih =>
    rw [List.foldl_append, ih, List.eraseDups_append]
    by_cases hmem : name ∈ occurrences
    · simp [insertName, List.removeAll, hmem]
    · simp [insertName, List.removeAll, hmem, List.eraseDups_cons]

/-- The names collected from some leaves. -/
def collected (leaves : List Formula) : List String :=
  (leaves.filterMap Formula.name?).foldl insertName []

theorem mem_collected_iff {leaves : List Formula} {name : String} :
    name ∈ collected leaves ↔ .var name ∈ leaves := by
  rw [collected, mem_foldl_insertName_iff, List.mem_filterMap]
  constructor
  · rintro (h | ⟨leaf, hleaf, hname⟩)
    · cases h
    · rwa [← Formula.name?_eq_some_iff.1 hname]
  · exact fun h => .inr ⟨_, h, rfl⟩

theorem nodup_collected (leaves : List Formula) : (collected leaves).Nodup :=
  nodup_foldl_insertName List.nodup_nil _

theorem collected_append_var (leaves : List Formula) (name : String) :
    collected (leaves ++ [.var name]) = insertName (collected leaves) name := by
  rw [collected, List.filterMap_append, List.foldl_append]
  rfl

theorem collected_append_of_none {leaves : List Formula} {leaf : Formula} (h : leaf.name? = none) :
    collected (leaves ++ [leaf]) = collected leaves := by
  rw [collected, List.filterMap_append, List.filterMap_cons_none h, List.filterMap_nil, List.append_nil,
    collected]

/-- What is collected stands in the order of the leaves. -/
theorem pairwise_collected (leaves : List Formula) :
    (collected leaves).Pairwise fun x y => leaves.idxOf (.var x) < leaves.idxOf (.var y) := by
  induction leaves using List.reverseRecOn with
  | nil => exact .nil
  | append_singleton leaves leaf ih =>
    -- a further leaf does not move those that are there
    have hkept : (collected leaves).Pairwise fun x y =>
        (leaves ++ [leaf]).idxOf (.var x) < (leaves ++ [leaf]).idxOf (.var y) := by
      refine ih.imp_of_mem fun {x y} hx hy hlt => ?_
      rwa [List.idxOf_append_of_mem (mem_collected_iff.1 hx),
        List.idxOf_append_of_mem (mem_collected_iff.1 hy)]
    cases hname : leaf.name? with
    | none => rwa [collected_append_of_none hname]
    | some name =>
      obtain rfl := Formula.name?_eq_some_iff.1 hname
      rw [collected_append_var, insertName]
      split
      · exact hkept
      next hnew =>
        have hout : Formula.var name ∉ leaves := fun hin =>
          hnew (List.contains_iff_mem.2 (mem_collected_iff.2 hin))
        refine List.pairwise_append.2 ⟨hkept, List.pairwise_singleton _ _, fun x hx y hy => ?_⟩
        rw [List.mem_singleton.1 hy, List.idxOf_append_of_mem (mem_collected_iff.1 hx),
          List.idxOf_append_of_notMem hout]
        exact Nat.lt_add_right _ (List.idxOf_lt_length_of_mem (mem_collected_iff.1 hx))

/-- The names of a formula are collected from its leaves, unless one of them is foreign. -/
theorem names_eq_collected (f : Formula) :
    f.names =
      match f.leaves.findSome? Formula.stranger? with
      | none => .ok (collected f.leaves)
      | some e => .error e := by
  rw [names_eq_match, Formula.occurrences_eq_filterMap]
  rfl

/-! ### The loop over an agenda -/

/-- How many rounds the formulas on an agenda take at most. -/
def formulasWeight (agenda : List Formula) : Nat := agendaWeight (agenda.map .meet)

/-- The names in the formulas of an agenda, with those met before: the next formula is taken from the agenda,
and its operands take its place. -/
def Formula.gather : List Formula → List String → Except EvalError (List String)
  | [], names => .ok names
  | .binary _ l r :: agenda, names => gather (l :: r :: agenda) names
  | .neg f :: agenda, names => gather (f :: agenda) names
  | .group f :: agenda, names => gather (f :: agenda) names
  | .var name :: agenda, names => gather agenda (insertName names name)
  | .const _ :: agenda, names => gather agenda names
  | .foreign typeName :: _, _ => .error (.unknownNode typeName)
termination_by agenda => formulasWeight agenda
decreasing_by
  all_goals simp only [formulasWeight, List.map_cons, agendaWeight, Task.weight, Formula.weight]; omega

/-- The loop collects the names of all formulas on the agenda, in their order, unless a leaf is foreign. -/
theorem gather_eq_match (agenda : List Formula) (names : List String) :
    Formula.gather agenda names =
      match (agenda.flatMap Formula.leaves).findSome? Formula.stranger? with
      | none => .ok ((agenda.flatMap Formula.occurrences).foldl insertName names)
      | some e => .error e := by
  induction agenda, names using Formula.gather.induct with
  | case1 names =>
    rw [Formula.gather]
    rfl
  | case2 names c l r agenda ih =>
    rw [Formula.gather, ih]
    simp only [List.flatMap_cons, Formula.leaves, Formula.occurrences, List.append_assoc]
  | case3 names f agenda ih =>
    rw [Formula.gather, ih]
    rfl
  | case4 names f agenda ih =>
    rw [Formula.gather, ih]
    rfl
  | case5 names name agenda ih =>
    rw [Formula.gather, ih]
    rfl
  | case6 names value agenda ih =>
    rw [Formula.gather, ih]
    rfl
  | case7 names typeName agenda =>
    rw [Formula.gather]
    rfl

/-- The loop gives the names of a formula. -/
theorem gather_singleton (f : Formula) : Formula.gather [f] [] = f.names := by
  cases h : f.leaves.findSome? Formula.stranger? <;> simp [gather_eq_match, names_eq_match, h]

/-! ### Foreign leaves -/

/-- A walk that has a value for each name fails at the leftmost foreign leaf. -/
theorem Algebra.errorOf?_run {α : Type} {A : Algebra α} {f : Formula}
    (hnames : ∀ name, .var name ∈ f.leaves → ∃ a, A.var name = .ok a) :
    errorOf? (A.run f) = f.leaves.findSome? Formula.stranger? := by
  rw [A.run_eq_fold]
  induction f with
  | var name =>
    obtain ⟨a, ha⟩ := hnames name (List.mem_singleton_self _)
    rw [Algebra.fold, ha]
    rfl
  | const value => rfl
  | foreign typeName => rfl
  | neg f ih => rw [Algebra.fold, errorOf?_map, ih hnames, Formula.leaves]
  | group f ih => rw [Algebra.fold, errorOf?_map, ih hnames, Formula.leaves]
  | binary c l r ihl ihr =>
    have hl := ihl fun name hname => hnames name (List.mem_append_left _ hname)
    have hr := ihr fun name hname => hnames name (List.mem_append_right _ hname)
    rw [Algebra.fold, Formula.leaves, List.findSome?_append, ← hl, ← hr]
    refine errorOf?_bind fun a _ => ?_
    cases A.fold r <;> rfl

/-- So does the walk that collects the names. -/
theorem errorOf?_names (f : Formula) : errorOf? f.names = f.leaves.findSome? Formula.stranger? := by
  rw [names_eq_match]
  cases f.leaves.findSome? Formula.stranger? <;> rfl

/-- Writing a formula fails where the collection of its names fails. -/
theorem errorOf?_label (f : Formula) : errorOf? f.label = errorOf? f.names := by
  rw [errorOf?_names]
  exact Algebra.errorOf?_run fun name _ => ⟨name, rfl⟩

/-- So does its evaluation, if each name has a value. -/
theorem errorOf?_eval {f : Formula} {assignment : Assignment}
    (hnames : ∀ name, .var name ∈ f.leaves → (assignment name).isSome) :
    errorOf? (f.eval assignment) = errorOf? f.names := by
  rw [errorOf?_names]
  refine Algebra.errorOf?_run fun name hname => ?_
  obtain ⟨value, hvalue⟩ := Option.isSome_iff_exists.1 (hnames name hname)
  exact ⟨value, by simp [valueAlgebra, hvalue]⟩

/-! ### The tokens that are taken -/

/-- The tokens that a parser takes write the formula that it reads. -/
theorem exists_run_of_parse {tokens : List Token} {strict : Bool} {f : Formula}
    (hend : EndMarked tokens) (h : parse tokens strict = .ok f) :
    ∃ p q, Parser.ofTokens tokens = .ok p ∧ p.run strict = (.ok f, q) ∧
      Derives .loosest (tokens.take q.cursor) f := by
  obtain ⟨stop, later, htokens, _, hstream⟩ := hend.exists_stream
  rw [parse_of_ofTokens hstream, result_eq_ok_iff] at h
  obtain ⟨rest, hread⟩ := h
  obtain ⟨u, hsplit, hu, _⟩ := exists_of_readFormula hread
  have hcursor : 0 + ((tokensAhead tokens).length - rest.length) = u.length := by
    rw [hsplit, List.length_append]
    omega
  refine ⟨_, Parser.moveTo rest ⟨0, tokensAhead tokens, stop⟩, parser_of_ofTokens hstream, ?_, ?_⟩
  · rw [Parser.run, Parser.apply]
    simp only [hread]
  · have htaken : tokens.take u.length = u := by
      rw [htokens, hsplit, List.append_assoc, List.take_left]
    rw [Parser.moveTo]
    simp only [hcursor, htaken]
    exact hu

/-- The names of a formula that was parsed are the lexemes of the name tokens that were taken. -/
theorem names_of_parse {tokens : List Token} {strict : Bool} {f : Formula} (hend : EndMarked tokens)
    (h : parse tokens strict = .ok f) :
    ∃ p q, Parser.ofTokens tokens = .ok p ∧ p.run strict = (.ok f, q) ∧
      f.names = .ok (((tokens.take q.cursor).filter fun t => t.kind = .name).map
        Token.lexeme).eraseDups := by
  obtain ⟨p, q, hp, hrun, hderives⟩ := exists_run_of_parse hend h
  refine ⟨p, q, hp, hrun, ?_⟩
  rw [names_eq_foldl hderives.native, foldl_insertName_eq_eraseDups, hderives.occurrences_eq]

/-! ### All formulas -/

/-- **The order of the names.**  The names of a formula without foreign leaves are those of its leaves, each
once, in the order in which they occur first from left to right; and if the formula was parsed from a text,
they are the lexemes of the name tokens that were taken, in their order, without the later repetitions.
The leftmost foreign leaf is reported, and writing the formula and evaluating it, where each name has a
value, report the same.  All three may be done by a loop over an agenda. -/
theorem names_column_order (f : Formula) :
    ((∀ typeName, .foreign typeName ∉ f.leaves) →
      ∃ names, f.names = .ok names ∧ names.Nodup ∧ (∀ name, name ∈ names ↔ .var name ∈ f.leaves) ∧
        names.Pairwise fun x y => f.leaves.idxOf (.var x) < f.leaves.idxOf (.var y)) ∧
    (∀ (source : String) (strict : Bool) (tokens : List Token), lex source = .ok tokens →
      parse tokens strict = .ok f →
      ∃ p q, Parser.ofTokens tokens = .ok p ∧ p.run strict = (.ok f, q) ∧
        f.names = .ok (((tokens.take q.cursor).filter fun t => t.kind = .name).map
          Token.lexeme).eraseDups) ∧
    (∀ (before after : List Formula) (typeName : String),
      f.leaves = before ++ .foreign typeName :: after → (∀ other, .foreign other ∉ before) →
      f.names = .error (.unknownNode typeName)) ∧
    (∀ e, f.label = .error e ↔ f.names = .error e) ∧
    (∀ assignment : Assignment, (∀ name, .var name ∈ f.leaves → (assignment name).isSome) →
      ∀ e, f.eval assignment = .error e ↔ f.names = .error e) ∧
    Formula.gather [f] [] = f.names ∧
    (Walker.ofFormula f).run labelAlgebra false = f.label.map ([·]) ∧
    ∀ assignment, (Walker.ofFormula f).run (valueAlgebra assignment) true =
      (f.eval assignment).map ([·]) := by
  refine ⟨?native, ?parsed, ?foreign, ?label, ?eval, gather_singleton f, ?loop, ?loops⟩
  case native =>
    intro hnone
    refine ⟨collected f.leaves, ?_, nodup_collected _, fun name => mem_collected_iff,
      pairwise_collected _⟩
    rw [names_eq_collected, findSome?_stranger?_eq_none hnone]
  case parsed =>
    intro source strict tokens hlex hparse
    exact names_of_parse (endMarked_of_lex hlex) hparse
  case foreign =>
    intro before after typeName hleaves hbefore
    rw [← errorOf?_eq_some_iff, errorOf?_names, hleaves, findSome?_stranger?_append hbefore]
  case label =>
    intro e
    rw [← errorOf?_eq_some_iff, ← errorOf?_eq_some_iff, errorOf?_label]
  case eval =>
    intro assignment hnames e
    rw [← errorOf?_eq_some_iff, ← errorOf?_eq_some_iff, errorOf?_eval hnames]
  case loop =>
    rw [Walker.run_ofFormula (by simp [Algebra.MayOpen]), Formula.label, Algebra.run_eq_fold]
  case loops =>
    intro assignment
    rw [Walker.run_ofFormula (mayOpen_valueAlgebra assignment true), Formula.eval, Algebra.run_eq_fold]

/-- A name behind the formula is not taken, and of two foreign leaves the left one is reported, whatever
the value of the operand in front of it. -/
theorem names_column_order_repeated :
    (∃ tokens f p q, lex "(q v p) & q p" = .ok tokens ∧ parse tokens false = .ok f ∧
      Parser.ofTokens tokens = .ok p ∧ p.run false = (.ok f, q) ∧
      f.names = .ok (((tokens.take q.cursor).filter fun t => t.kind = .name).map
        Token.lexeme).eraseDups) ∧
    ∃ f, f = Formula.binary .conj (.const false)
        (.binary .imp (.group (.foreign "Expr")) (.foreign "Node")) ∧
      f.names = .error (.unknownNode "Expr") ∧
      f.eval (fun _ => none) = .error (.unknownNode "Expr") := by
  refine ⟨?_, _, rfl, ?_⟩
  · have hlex : lex "(q v p) & q p" = .ok
        [⟨.openParen, "(", 0⟩, ⟨.name, "q", 1⟩, ⟨.connective .disj, "v", 3⟩, ⟨.name, "p", 5⟩,
          ⟨.closeParen, ")", 6⟩, ⟨.connective .conj, "&", 8⟩, ⟨.name, "q", 10⟩, ⟨.name, "p", 12⟩,
          ⟨.endMark, "", 13⟩] := by
      decide +kernel
    have hparse : parse
        [⟨.openParen, "(", 0⟩, ⟨.name, "q", 1⟩, ⟨.connective .disj, "v", 3⟩, ⟨.name, "p", 5⟩,
          ⟨.closeParen, ")", 6⟩, ⟨.connective .conj, "&", 8⟩, ⟨.name, "q", 10⟩, ⟨.name, "p", 12⟩,
          ⟨.endMark, "", 13⟩] false =
        .ok (.binary .conj (.group (.binary .disj (.var "q") (.var "p"))) (.var "q")) := by
      decide +kernel
    obtain ⟨p, q, hp, hrun, hnames⟩ := (names_column_order _).2.1 _ false _ hlex hparse
    exact ⟨_, _, p, q, hlex, hparse, hp, hrun, hnames⟩
  · obtain ⟨_, _, hforeign, _, heval, _⟩ := names_column_order (.binary .conj (.const false)
      (.binary .imp (.group (.foreign "Expr")) (.foreign "Node")))
    have hnames := hforeign [.const false] [.foreign "Node"] "Expr" rfl (by simp)
    exact ⟨hnames, (heval (fun _ => none) (by simp [Formula.leaves]) _).2 hnames⟩

end Propositional
