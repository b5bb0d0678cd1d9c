import Mathlib.Algebra.Group.Nat.Defs
import Mathlib.Control.Monad.Basic
import Propositional.Proofs.Formula.Meaning
import Propositional.Proofs.Table.Stages

/-!
# The values of a truth table

The names are collected by one walk, the rows are counted in binary, and the values are computed by
another walk under each row.  Here the three are put together.

* `bitRow_getElem?`, `bitRows_getElem?` — the digits of a row and the rows in order;
* `lookup_columns` — the value that a row gives to a name;
* `rowValuation` — the valuation of a row;
* `evalRows_ok` — rows that cover the names of a formula have its truth values;
* `SendsBits`, `IsTruthTable` — the specification;
* `evaluate_classical` — evaluation gives the truth table of a formula, and so does `truthTable`.
-/

namespace Propositional

/-! ### Rows -/

@[simp] theorem bitRow_length (n number : Nat) : (bitRow n number).length = n := by
  simp [bitRow]

theorem bitRow_getElem? {n place : Nat} (h : place < n) (number : Nat) :
    (bitRow n number)[place]? = some (number.testBit (n - 1 - place)) := by
  simp [bitRow, h]

theorem bitRows_length (n : Nat) : (bitRows n).length = 2 ^ n := by
  rw [bitRows, List.length_map, List.length_range]
  rfl

theorem bitRows_getElem? {n number : Nat} (h : number < 2 ^ n) :
    (bitRows n)[number]? = some (bitRow n number) := by
  have hrange : (List.range (Nat.pow 2 n))[number]? = some number := List.getElem?_range h
  rw [bitRows, List.getElem?_map, hrange]
  rfl

/-! ### The valuation of a row -/

/-- A row gives a name the value in its last column. -/
theorem lookup_columns {names : List String} {row : List Bool} {place : Nat} {x : String}
    {value : Bool} (hname : names[place]? = some x) (hvalue : row[place]? = some value)
    (hlast : ∀ later, place < later → later < row.length → names[later]? ≠ some x) :
    (columns names row).lookup x = some value := by
  have hplace : (names.zip row)[place]? = some (x, value) :=
    List.getElem?_zip_eq_some.2 ⟨hname, hvalue⟩
  obtain ⟨hlt, hget⟩ := List.getElem?_eq_some_iff.1 hplace
  rw [columns, List.lookup_eq_some_iff]
  refine ⟨((names.zip row).drop (place + 1)).reverse, ((names.zip row).take place).reverse, ?_, ?_⟩
  · have hsplit : names.zip row =
        (names.zip row).take place ++ (x, value) :: (names.zip row).drop (place + 1) := by
      rw [← hget, List.getElem_cons_drop, List.take_append_drop]
    conv => lhs; rw [hsplit]
    simp
  · intro column hcolumn
    rw [List.mem_reverse] at hcolumn
    obtain ⟨k, hk⟩ := List.mem_iff_getElem?.1 hcolumn
    rw [List.getElem?_drop] at hk
    obtain ⟨hfirst, hsecond⟩ := List.getElem?_zip_eq_some.1 hk
    have hk : place + 1 + k < row.length := (List.getElem?_eq_some_iff.1 hsecond).1
    have hne := hlast (place + 1 + k) (by omega) hk
    rw [bne_iff_ne]
    intro hx
    rw [hx] at hne
    exact hne hfirst

/-- The valuation of a row; names without a column are false. -/
def rowValuation (names : List String) (row : List Bool) (name : String) : Bool :=
  ((columns names row).lookup name).getD false

/-- A valuation sends each name to its digit of a number, the first to the most significant one. -/
def SendsBits (names : List String) (number : Nat) (valuation : String → Bool) : Prop :=
  ∀ place (h : place < names.length),
    valuation names[place] = number.testBit (names.length - 1 - place)

/-- A row of digits has a column for every name. -/
theorem lookup_columns_bitRow {names : List String} (h : names.Nodup) (number : Nat) {place : Nat}
    (hplace : place < names.length) :
    (columns names (bitRow names.length number)).lookup names[place] =
      some (number.testBit (names.length - 1 - place)) := by
  refine lookup_columns (List.getElem?_eq_getElem hplace) (bitRow_getElem? hplace number) ?_
  intro later hlt hlater heq
  rw [← List.getElem?_eq_getElem hplace] at heq
  have : place = later := (List.getElem?_inj hplace h).1 heq.symm
  omega

theorem sendsBits_rowValuation {names : List String} (h : names.Nodup) (number : Nat) :
    SendsBits names number (rowValuation names (bitRow names.length number)) := by
  intro place hplace
  rw [rowValuation, lookup_columns_bitRow h number hplace]
  rfl

theorem SendsBits.eq_of_mem {names : List String} {number : Nat} {v w : String → Bool}
    (hv : SendsBits names number v) (hw : SendsBits names number w) {name : String}
    (h : name ∈ names) : v name = w name := by
  obtain ⟨place, hplace, rfl⟩ := List.mem_iff_getElem.1 h
  rw [hv place hplace, hw place hplace]

/-! ### Values -/

/-- Rows that cover the names of a formula have its truth values. -/
theorem evalRows_ok {f : Formula} (hnative : f.Native) {names : List String}
    {rows : List (List Bool)}
    (hcovers : ∀ row ∈ rows, ∀ name ∈ f.occurrences, ((columns names row).lookup name).isSome) :
    f.evalRows names rows = .ok (rows.map fun row => f.denote (rowValuation names row)) := by
  refine mapM_eq_ok fun row hrow => ?_
  show f.eval (fun name => (columns names row).lookup name) = _
  refine Formula.eval_eq_denote hnative fun name hname => ?_
  obtain ⟨value, hvalue⟩ := Option.isSome_iff_exists.1 (hcovers row hrow name hname)
  rw [rowValuation, hvalue]
  rfl

/-- Names and values are the truth table of a formula: the names are its variables, each once, and
on each assignment of them, counted in binary, the value says whether the formula holds. -/
structure IsTruthTable (f : Formula) (names : List String) (values : List Bool) : Prop where
  nodup : names.Nodup
  mem_names : ∀ name, name ∈ names ↔ name ∈ f.occurrences
  length : values.length = 2 ^ names.length
  exists_valuation : ∀ number < 2 ^ names.length, ∃ valuation, SendsBits names number valuation
  holds : ∀ number < 2 ^ names.length, ∀ valuation, SendsBits names number valuation →
    ∃ value, values[number]? = some value ∧ (value = true ↔ f.Holds valuation)

/-- The truth values on the rows of digits are the truth table. -/
theorem isTruthTable_bitRows {f : Formula} {names : List String} (hnodup : names.Nodup)
    (hmem : ∀ name, name ∈ names ↔ name ∈ f.occurrences) :
    IsTruthTable f names
      ((bitRows names.length).map fun row => f.denote (rowValuation names row)) where
  nodup := hnodup
  mem_names := hmem
  length := by rw [List.length_map, bitRows_length]
  exists_valuation number _ := ⟨_, sendsBits_rowValuation hnodup number⟩
  holds number hnumber valuation hsends := by
    refine ⟨f.denote valuation, ?_, f.denote_eq_true_iff_holds valuation⟩
    have hrow := sendsBits_rowValuation hnodup number
    rw [List.getElem?_map, bitRows_getElem? hnumber]
    exact congrArg some (Formula.denote_congr fun name hname =>
      hrow.eq_of_mem hsends ((hmem name).2 hname))

theorem evaluate_eq_ok_iff {f : Formula} {names : List String} {values : List Bool} :
    f.evaluate = .ok (names, values) ↔
      f.names = .ok names ∧ f.evalRows names (bitRows names.length) = .ok values := by
  simp only [Formula.evaluate, bind_eq_ok_iff]
  constructor
  · rintro ⟨found, hnames, found', hvalues, heq⟩
    cases heq
    exact ⟨hnames, hvalues⟩
  · rintro ⟨hnames, hvalues⟩
    exact ⟨names, hnames, values, hvalues, rfl⟩

/-- The rows of digits cover the names of a formula. -/
theorem evalRows_bitRows {f : Formula} (h : f.Native) {names : List String} (hnodup : names.Nodup)
    (hmem : ∀ name ∈ f.occurrences, name ∈ names) :
    f.evalRows names (bitRows names.length) =
      .ok ((bitRows names.length).map fun row => f.denote (rowValuation names row)) := by
  refine evalRows_ok h fun row hrow name hname => ?_
  obtain ⟨number, _, rfl⟩ := List.mem_map.1 hrow
  obtain ⟨place, hplace, rfl⟩ := List.mem_iff_getElem.1 (hmem name hname)
  rw [lookup_columns_bitRow hnodup number hplace]
  rfl

/-- The names that a formula collects are those that occur in it. -/
theorem mem_collected_names_iff {f : Formula} {name : String} :
    name ∈ f.occurrences.foldl insertName [] ↔ name ∈ f.occurrences := by
  simp [mem_foldl_insertName_iff]

/-- The names and values of a formula without foreign leaves. -/
theorem evaluate_eq_ok {f : Formula} (h : f.Native) {names : List String}
    (hnames : names = f.occurrences.foldl insertName []) :
    f.evaluate =
      .ok (names, (bitRows names.length).map fun row => f.denote (rowValuation names row)) := by
  subst hnames
  refine evaluate_eq_ok_iff.2 ⟨names_eq_foldl h, evalRows_bitRows h ?_ fun name hname => ?_⟩
  · exact nodup_foldl_insertName List.nodup_nil _
  · exact mem_collected_names_iff.2 hname

/-- A formula without foreign leaves has a truth table. -/
theorem exists_evaluate_eq_ok {f : Formula} (h : f.Native) :
    ∃ names values, f.evaluate = .ok (names, values) ∧ IsTruthTable f names values :=
  ⟨_, _, evaluate_eq_ok h rfl, isTruthTable_bitRows (nodup_foldl_insertName List.nodup_nil _)
    fun _ => mem_collected_names_iff⟩

/-- The names, rows and values of the table of a formula without foreign leaves. -/
theorem parts_of_table {f : Formula} (h : f.Native) {maxVars : Option Int} {table : TruthTable}
    (htable : f.table maxVars = .ok table) :
    table.names = f.occurrences.foldl insertName [] ∧ table.rows = bitRows table.names.length ∧
      table.values = table.rows.map fun row => f.denote (rowValuation table.names row) := by
  obtain ⟨hnames, _, hrows, hvalues, _⟩ := table_eq_ok_iff.1 htable
  have hsame : table.names = f.occurrences.foldl insertName [] :=
    (Except.ok.inj ((names_eq_foldl h).symm.trans hnames)).symm
  rw [hrows] at hvalues
  have hevaluate := evaluate_eq_ok_iff.2 ⟨hnames, hvalues⟩
  rw [evaluate_eq_ok h hsame] at hevaluate
  refine ⟨hsame, hrows, ?_⟩
  rw [hrows]
  exact (congrArg Prod.snd (Except.ok.inj hevaluate)).symm

/-- **Truth tables are classical.**  Evaluation gives every formula without foreign leaves its truth
table, and the names, rows and values of the table of a text are those of its formula. -/
theorem evaluate_classical :
    (∀ f : Formula, f.Native →
      ∃ names values, f.evaluate = .ok (names, values) ∧ IsTruthTable f names values) ∧
    ∀ source strict maxVars table, truthTable source strict maxVars = .ok table →
      ∃ tokens f, lex source = .ok tokens ∧ parse tokens strict = .ok f ∧
        f.evaluate = .ok (table.names, table.values) ∧
        table.rows = bitRows table.names.length := by
  refine ⟨fun f h => exists_evaluate_eq_ok h, fun source strict maxVars table h => ?_⟩
  obtain ⟨tokens, f, hlex, hparse, htable⟩ := truthTable_eq_ok_iff.1 h
  obtain ⟨hnames, _, hrows, hvalues, _⟩ := table_eq_ok_iff.1 htable
  rw [hrows] at hvalues
  exact ⟨tokens, f, hlex, hparse, evaluate_eq_ok_iff.2 ⟨hnames, hvalues⟩, hrows⟩

/-- An implication whose right operand is an equivalence has its four values. -/
theorem evaluate_classical_imp_iff :
    let f : Formula := .binary .imp (.var "b") (.group (.binary .iff (.var "a") (.neg (.var "b"))))
    f.evaluate = .ok (["b", "a"], [true, true, true, false]) ∧
      IsTruthTable f ["b", "a"] [true, true, true, false] ∧
      ∃ table, truthTable "b -> (a <-> ~b)" true none = .ok table ∧
        ∃ tokens g, lex "b -> (a <-> ~b)" = .ok tokens ∧ parse tokens true = .ok g ∧
          g.evaluate = .ok (table.names, table.values) ∧
          table.rows = bitRows table.names.length := by
  intro f
  have hvalues : f.evaluate = .ok (["b", "a"], [true, true, true, false]) := by decide +kernel
  obtain ⟨names, values, hevaluate, htable⟩ := evaluate_classical.1 f ⟨trivial, trivial, trivial⟩
  rw [hvalues] at hevaluate
  cases hevaluate
  have htext : truthTable "b -> (a <-> ~b)" true none =
      .ok ⟨["b", "a"], "b → (a ↔ ¬b)", bitRows 2, [true, true, true, false]⟩ := by decide +kernel
  exact ⟨hvalues, htable, _, htext, evaluate_classical.2 _ _ _ _ htext⟩

end Propositional
