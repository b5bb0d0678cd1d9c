import Mathlib.Control.Monad.Basic
import Propositional.Proofs.Formula.Evaluation
import Propositional.Proofs.Table.Values

/-!
# The columns of rows given by hand

Rows may come with any names, repeated ones included, and with more or fewer columns than names.  What a
formula is on them is settled by the columns of its own names, whatever else there is.

* `LastColumn` — the last column of a name, among those that have both a name and a value;
* `ReadsLast` — a valuation gives each name the value in its last column;
* `lookup_columns_eq_none_iff` — which names have no column; `eval_columns_unassigned` — then the leftmost
  such name of the formula is reported;
* `eval_congr`, `evalRows_map_congr` — only the columns of the names that occur matter;
* `rearranged` — a list in another order; `lookup_rearranged`, `lookup_inserted` — columns in another order,
  and further columns;
* `evalRows_by_columns` — the outcome for all names and rows, and what it does not depend on.
-/

namespace Propositional

/-! ### The column of a name -/

/-- The last column of a name, among the first `width` ones. -/
structure LastColumn (names : List String) (width : Nat) (name : String) (place : Nat) : Prop where
  lt : place < width
  named : names[place]? = some name
  last : ∀ later, place < later → later < width → names[later]? ≠ some name

/-- A valuation gives each name that has a column of a row the value in the last one. -/
def ReadsLast (names : List String) (row : List Bool) (valuation : String → Bool) : Prop :=
  ∀ name place, LastColumn names row.length name place → row[place]? = some (valuation name)

theorem exists_lastColumn {names : List String} {width : Nat} {name : String}
    (h : name ∈ names.take width) : ∃ place, LastColumn names width name place := by
  induction width with
  | zero => simp at h
  | succ width ih =>
    by_cases hlast : names[width]? = some name
    · exact ⟨width, Nat.lt_succ_self width, hlast, fun later hlt hle => absurd hle (by omega)⟩
    · have hmem : name ∈ names.take width := by
        rw [List.take_add_one, List.mem_append] at h
        exact h.resolve_right fun hmem => hlast (by simpa using hmem)
      obtain ⟨place, hplace⟩ := ih hmem
      refine ⟨place, Nat.lt_succ_of_lt hplace.lt, hplace.named, fun later hlt hle => ?_⟩
      rcases Nat.eq_or_lt_of_le (Nat.le_of_lt_succ hle) with rfl | hlater
      · exact hlast
      · exact hplace.last later hlt hlater

/-- A row gives a name the value in its last column. -/
theorem LastColumn.lookup_columns {names : List String} {row : List Bool} {name : String} {place : Nat}
    (h : LastColumn names row.length name place) :
    (columns names row).lookup name = row[place]? := by
  have hvalue := List.getElem?_eq_getElem h.lt
  rw [hvalue]
  exact Propositional.lookup_columns h.named hvalue h.last

theorem readsLast_rowValuation (names : List String) (row : List Bool) :
    ReadsLast names row (rowValuation names row) := by
  intro name place h
  rw [rowValuation, h.lookup_columns, List.getElem?_eq_getElem h.lt]
  rfl

theorem ReadsLast.lookup_columns {names : List String} {row : List Bool} {valuation : String → Bool}
    (h : ReadsLast names row valuation) {name : String} (hname : name ∈ names.take row.length) :
    (columns names row).lookup name = some (valuation name) := by
  obtain ⟨place, hplace⟩ := exists_lastColumn hname
  rw [hplace.lookup_columns, h name place hplace]

theorem map_fst_zip_eq_take (names : List String) (row : List Bool) :
    (names.zip row).map Prod.fst = names.take row.length := by
  induction names generalizing row with
  | nil => simp
  | cons name names ih =>
    cases row with
    | nil => rfl
    | cons value row => simp [ih]

/-- The names without a column are those that are not among the first ones, as many as the row is wide. -/
theorem lookup_columns_eq_none_iff {names : List String} {row : List Bool} {name : String} :
    (columns names row).lookup name = none ↔ name ∉ names.take row.length := by
  rw [columns, List.lookup_eq_none_iff, ← map_fst_zip_eq_take, List.mem_map]
  constructor
  · rintro h ⟨column, hcolumn, rfl⟩
    simpa using h column (List.mem_reverse.2 hcolumn)
  · intro h column hcolumn
    rw [bne_iff_ne]
    rintro rfl
    exact h ⟨column, List.mem_reverse.1 hcolumn, rfl⟩

/-! ### Names without a column -/

/-- The leaves of a formula without foreign ones fail where its names do. -/
theorem Formula.Native.findSome?_fault? {f : Formula} (h : f.Native) (assignment : Assignment) :
    f.leaves.findSome? (fault? assignment) =
      (f.occurrences.find? fun name => (assignment name).isNone).map EvalError.unassigned := by
  induction f with
  | var name => cases hname : assignment name <;> simp [leaves, fault?, occurrences, hname]
  | const value => rfl
  | foreign typeName => exact h.elim
  | neg f ih => exact ih h
  | group f ih => exact ih h
  | binary c l r ihl ihr =>
    rw [leaves, List.findSome?_append, ihl h.1, ihr h.2, occurrences, List.find?_append]
    cases l.occurrences.find? fun name => (assignment name).isNone <;> rfl

/-- The leftmost name of a formula that has no column in a row is reported. -/
theorem eval_columns_unassigned {f : Formula} (hnative : f.Native) {names : List String}
    {row : List Bool} {name : String}
    (h : f.occurrences.find? (fun x => !(names.take row.length).contains x) = some name) :
    f.eval (fun x => (columns names row).lookup x) = .error (.unassigned name) := by
  have hmissing : (fun x => ((columns names row).lookup x).isNone) =
      fun x => !(names.take row.length).contains x := by
    funext x
    rw [Bool.eq_iff_iff, Option.isNone_iff_eq_none, lookup_columns_eq_none_iff]
    simp
  rw [Formula.eval, Algebra.run_eq_fold, Formula.fold_valueAlgebra, hnative.findSome?_fault?, hmissing, h]
  rfl

/-- Nothing is missing where each name has a column. -/
theorem find?_missing_eq_none_iff {f : Formula} {known : List String} :
    f.occurrences.find? (fun x => !known.contains x) = none ↔ ∀ name ∈ f.occurrences, name ∈ known := by
  simp [List.find?_eq_none]

/-! ### What does not matter -/

/-- Evaluation looks up only the names that occur. -/
theorem eval_congr {f : Formula} {assignment other : Assignment}
    (h : ∀ name ∈ f.occurrences, assignment name = other name) :
    f.eval assignment = f.eval other := by
  rw [Formula.eval, Formula.eval, Algebra.run_eq_fold, Algebra.run_eq_fold]
  induction f with
  | var name => simp only [Algebra.fold, valueAlgebra, h name (List.mem_singleton_self name)]
  | const value => rfl
  | foreign typeName => rfl
  | neg f ih =>
    rw [Algebra.fold, Algebra.fold, ih h]
    rfl
  | group f ih =>
    rw [Algebra.fold, Algebra.fold, ih h]
    rfl
  | binary c l r ihl ihr =>
    have hl := ihl fun name hname => h name (List.mem_append_left _ hname)
    have hr := ihr fun name hname => h name (List.mem_append_right _ hname)
    rw [Algebra.fold, Algebra.fold, hl, hr]
    rfl

/-- Rows in which the names that occur have the same values give the same outcome. -/
theorem evalRows_map_congr {ι : Type} {f : Formula} {names others : List String} {items : List ι}
    {row other : ι → List Bool}
    (h : ∀ item ∈ items, ∀ name ∈ f.occurrences,
      (columns names (row item)).lookup name = (columns others (other item)).lookup name) :
    f.evalRows names (items.map row) = f.evalRows others (items.map other) := by
  induction items with
  | nil => rfl
  | cons item items ih =>
    have hitem : valueOnRow f.visits names (row item) = valueOnRow f.visits others (other item) :=
      eval_congr (h item List.mem_cons_self)
    have hitems := ih fun later hlater => h later (List.mem_cons_of_mem _ hlater)
    rw [Formula.evalRows, Formula.evalRows] at hitems ⊢
    rw [List.map_cons, List.map_cons, List.mapM_cons, List.mapM_cons, hitem, hitems]

/-! ### Another order -/

/-- The items at some places of a list. -/
def picked {α : Type} (places : List Nat) (items : List α) : List α :=
  places.filterMap fun place => items[place]?

/-- The items at some places, followed by the items behind as many as there are places.  Where the places
are the first ones in another order, these items are rearranged and the others stay. -/
def rearranged {α : Type} (places : List Nat) (items : List α) : List α :=
  picked places items ++ items.drop places.length

section Order

variable {α β : Type} {places : List Nat} {count place : Nat}

theorem picked_cons {items : List α} (h : place < items.length) (places : List Nat) :
    picked (place :: places) items = items[place] :: picked places items := by
  simp [picked, h]

theorem picked_range (items : List α) (count : Nat) :
    picked (List.range count) items = items.take count := by
  induction count with
  | zero => rfl
  | succ count ih =>
    rw [picked] at ih ⊢
    rw [List.range_succ, List.filterMap_append, ih, List.take_add_one]
    cases h : items[count]? <;> simp [h]

theorem length_picked {items : List α} (h : ∀ place ∈ places, place < items.length) :
    (picked places items).length = places.length := by
  induction places with
  | nil => rfl
  | cons place places ih =>
    rw [picked_cons (h place List.mem_cons_self), List.length_cons, List.length_cons,
      ih fun later hlater => h later (List.mem_cons_of_mem _ hlater)]

theorem zip_picked {items : List α} {values : List β}
    (h : ∀ place ∈ places, place < (items.zip values).length) :
    (picked places items).zip (picked places values) = picked places (items.zip values) := by
  induction places with
  | nil => rfl
  | cons place places ih =>
    have hplace := h place List.mem_cons_self
    have hboth := hplace
    rw [List.length_zip, Nat.lt_min] at hboth
    rw [picked_cons hboth.1, picked_cons hboth.2, picked_cons hplace, List.zip_cons_cons,
      List.getElem_zip, ih fun later hlater => h later (List.mem_cons_of_mem _ hlater)]

theorem rearranged_perm (h : places.Perm (List.range count)) (items : List α) :
    (rearranged places items).Perm items := by
  have hlength : places.length = count := by rw [h.length_eq, List.length_range]
  have hpicked : (picked places items).Perm (items.take count) := by
    rw [← picked_range]
    exact h.filterMap _
  rw [rearranged, hlength]
  simpa using hpicked.append_right (items.drop count)

theorem rearranged_map (places : List Nat) (items : List α) (g : α → β) :
    rearranged places (items.map g) = (rearranged places items).map g := by
  simp [rearranged, picked, List.map_filterMap, List.map_drop]

/-- Two lists that are rearranged alike keep together. -/
theorem zip_rearranged {items : List α} {values : List β}
    (h : places.Perm (List.range (items.zip values).length)) :
    (rearranged places items).zip (rearranged places values) =
      rearranged places (items.zip values) := by
  have hlength : places.length = (items.zip values).length := by rw [h.length_eq, List.length_range]
  have hplaces : ∀ place ∈ places, place < (items.zip values).length := by
    intro place hplace
    exact List.mem_range.1 (h.mem_iff.1 hplace)
  have hmin : (items.zip values).length = min items.length values.length := List.length_zip
  have hitems : (picked places items).length = places.length :=
    length_picked fun place hplace => by have := hplaces place hplace; omega
  have hvalues : (picked places values).length = places.length :=
    length_picked fun place hplace => by have := hplaces place hplace; omega
  rw [rearranged, rearranged, rearranged, List.zip_append (hitems.trans hvalues.symm),
    zip_picked hplaces]
  simp only [List.zip, List.drop_zipWith]

end Order

/-! ### Columns in another order, and further columns -/

/-- Among columns of distinct names the order does not matter. -/
theorem lookup_eq_of_perm {found other : List (String × Bool)} (h : found.Perm other)
    (hnodup : (found.map Prod.fst).Nodup) (name : String) : found.lookup name = other.lookup name := by
  induction h with
  | nil => rfl
  | cons column _ ih =>
    rw [List.map_cons, List.nodup_cons] at hnodup
    rw [List.lookup_cons, List.lookup_cons, ih hnodup.2]
  | swap first second later =>
    obtain ⟨x, value⟩ := first
    obtain ⟨y, value'⟩ := second
    have hne : y ≠ x := by
      rintro rfl
      simp at hnodup
    simp only [List.lookup_cons]
    by_cases hx : name = x
    · have hy : (name == y) = false := by simpa [hx] using hne.symm
      rw [hy]
    · have hx : (name == x) = false := by simpa using hx
      rw [hx]
  | trans h _ ih ih' =>
    rw [ih hnodup, ih' ((h.map Prod.fst).nodup_iff.1 hnodup)]

/-- Columns that are rearranged together with their names are found as before. -/
theorem lookup_rearranged {names : List String} {row : List Bool}
    (hnodup : (names.take row.length).Nodup) {places : List Nat}
    (hplaces : places.Perm (List.range (min names.length row.length))) (name : String) :
    (columns (rearranged places names) (rearranged places row)).lookup name =
      (columns names row).lookup name := by
  have hzip : places.Perm (List.range (names.zip row).length) := by rwa [List.length_zip]
  have hperm : (columns (rearranged places names) (rearranged places row)).Perm (columns names row) := by
    rw [columns, columns, zip_rearranged hzip]
    exact (List.reverse_perm _).trans ((rearranged_perm hzip _).trans (List.reverse_perm _).symm)
  refine (lookup_eq_of_perm hperm.symm ?_ name).symm
  rwa [columns, List.map_reverse, (List.reverse_perm _).nodup_iff, map_fst_zip_eq_take]

/-- Columns of other names that stand among those of a row are passed over. -/
theorem lookup_inserted {front extra back : List String} {first more last : List Bool} {name : String}
    (hname : name ∉ extra) (hfirst : first.length = front.length) (hmore : more.length = extra.length) :
    (columns (front ++ extra ++ back) (first ++ more ++ last)).lookup name =
      (columns (front ++ back) (first ++ last)).lookup name := by
  have hnone : (columns extra more).lookup name = none := by
    rw [lookup_columns_eq_none_iff, hmore, List.take_length]
    exact hname
  rw [columns] at hnone
  rw [columns, columns, List.zip_append (by simp [hfirst, hmore]), List.zip_append hfirst.symm,
    List.zip_append hfirst.symm, List.reverse_append, List.reverse_append, List.reverse_append,
    List.lookup_append, List.lookup_append, List.lookup_append, hnone]
  rfl

/-! ### All names and rows -/

section Rows

variable {f : Formula} (hnative : f.Native) {names : List String} {rows : List (List Bool)} {width : Nat}
  (hwidth : ∀ row ∈ rows, row.length = width)

include hnative hwidth

/-- Rows that are wide enough for the names of a formula have its truth values. -/
theorem evalRows_of_covered (hcovers : ∀ name ∈ f.occurrences, name ∈ names.take width) :
    f.evalRows names rows = .ok (rows.map fun row => f.denote (rowValuation names row)) := by
  refine evalRows_ok hnative fun row hrow name hname => ?_
  rw [Option.isSome_iff_ne_none, ne_eq, lookup_columns_eq_none_iff, not_not, hwidth row hrow]
  exact hcovers name hname

/-- Rows that are not so wide all fail in the same way. -/
theorem evalRows_of_missing (hrows : rows ≠ []) {name : String}
    (hname : f.occurrences.find? (fun x => !(names.take width).contains x) = some name) :
    f.evalRows names rows = .error (.unassigned name) := by
  have hfails : ∀ row ∈ rows, valueOnRow f.visits names row = .error (.unassigned name) := by
    intro row hrow
    rw [← hwidth row hrow] at hname
    exact eval_columns_unassigned hnative hname
  obtain ⟨row, hrow⟩ := List.exists_mem_of_ne_nil rows hrows
  refine mapM_eq_error (fun other hother cause hcause => ?_) ⟨row, hrow, hfails row hrow⟩
  rw [hfails other hother] at hcause
  cases hcause
  rfl

/-- Rows in another order have their values in this order. -/
theorem evalRows_rearranged {places : List Nat} (hplaces : places.Perm (List.range rows.length)) :
    f.evalRows names (rearranged places rows) = (f.evalRows names rows).map (rearranged places) := by
  have hperm := rearranged_perm hplaces rows
  have hwidths : ∀ row ∈ rearranged places rows, row.length = width :=
    fun row hrow => hwidth row (hperm.mem_iff.1 hrow)
  cases hfind : f.occurrences.find? fun x => !(names.take width).contains x with
  | none =>
    have hcovers := find?_missing_eq_none_iff.1 hfind
    rw [evalRows_of_covered hnative hwidths hcovers, evalRows_of_covered hnative hwidth hcovers,
      ← rearranged_map]
    rfl
  | some name =>
    by_cases hrows : rows = []
    · subst hrows
      rw [hplaces.eq_nil]
      rfl
    · have hother : rearranged places rows ≠ [] := fun hnil => hrows (hnil ▸ hperm).symm.eq_nil
      rw [evalRows_of_missing hnative hwidths hother hfind, evalRows_of_missing hnative hwidth hrows hfind]
      rfl

end Rows

/-- **Rows given by hand.**  On rows of one width a formula without foreign leaves has a value for each row if
each of its names is among the first names, as many as the rows are wide; then a row is read as giving each name
the value in its last column.  Otherwise, unless there are no rows, the leftmost of its names that is not
among them is reported, whatever the rows hold.  Neither the order of columns of distinct names nor
further columns of other names matter, and rows in another order have their values in this order. -/
theorem evalRows_by_columns {f : Formula} (hnative : f.Native) {names : List String}
    {rows : List (List Bool)} {width : Nat} (hwidth : ∀ row ∈ rows, row.length = width) :
    (rows = [] → f.evalRows names rows = .ok []) ∧
    ((∀ name ∈ f.occurrences, name ∈ names.take width) →
      ∃ values : List Bool, f.evalRows names rows = .ok values ∧ values.length = rows.length ∧
        ∀ (place : Nat) (row : List Bool), rows[place]? = some row →
          (∃ valuation, ReadsLast names row valuation) ∧
          ∀ valuation, ReadsLast names row valuation →
            ∃ value, values[place]? = some value ∧ (value = true ↔ f.Holds valuation)) ∧
    (rows ≠ [] → ∀ name,
      f.occurrences.find? (fun x => !(names.take width).contains x) = some name →
      f.evalRows names rows = .error (.unassigned name)) ∧
    ((names.take width).Nodup → ∀ places, places.Perm (List.range (min names.length width)) →
      f.evalRows (rearranged places names) (rows.map (rearranged places)) = f.evalRows names rows) ∧
    (∀ (front extra back : List String) (parts : List (List Bool × List Bool × List Bool)),
      names = front ++ back → rows = parts.map (fun part => part.1 ++ part.2.2) →
      (∀ part ∈ parts, part.1.length = front.length ∧ part.2.1.length = extra.length) →
      (∀ name ∈ extra, name ∉ f.occurrences) →
      f.evalRows (front ++ extra ++ back) (parts.map fun part => part.1 ++ part.2.1 ++ part.2.2) =
        f.evalRows names rows) ∧
    ∀ places, places.Perm (List.range rows.length) →
      f.evalRows names (rearranged places rows) = (f.evalRows names rows).map (rearranged places) := by
  refine ⟨?empty, ?covered, fun hrows name => evalRows_of_missing hnative hwidth hrows, ?order, ?further,
    fun places => evalRows_rearranged hnative hwidth⟩
  case empty =>
    rintro rfl
    rfl
  case covered =>
    intro hcovers
    refine ⟨_, evalRows_of_covered hnative hwidth hcovers, by simp, fun place row hrow =>
      ⟨⟨_, readsLast_rowValuation names row⟩, fun valuation hreads => ?_⟩⟩
    refine ⟨f.denote valuation, ?_, f.denote_eq_true_iff_holds valuation⟩
    rw [List.getElem?_map, hrow]
    refine congrArg some (Formula.denote_congr fun name hname => ?_)
    have hmem := hcovers name hname
    rw [← hwidth row (List.mem_of_getElem? hrow)] at hmem
    rw [rowValuation, hreads.lookup_columns hmem]
    rfl
  case order =>
    intro hnodup places hplaces
    conv => rhs; rw [← List.map_id rows]
    refine evalRows_map_congr fun row hrow name _ => ?_
    rw [← hwidth row hrow] at hnodup hplaces
    exact lookup_rearranged hnodup hplaces name
  case further =>
    rintro front extra back parts rfl rfl hlengths hextra
    refine evalRows_map_congr fun part hpart name hname => ?_
    obtain ⟨hfirst, hmore⟩ := hlengths part hpart
    exact lookup_inserted (fun hmem => hextra name hmem hname) hfirst hmore

/-- Of two columns of one name the later counts, and one without name is passed over.  A name without a column
is reported on every row, and exchanged or further columns and exchanged rows are no trouble. -/
theorem evalRows_by_columns_repeated :
    let f : Formula := .binary .conj (.var "q") (.neg (.group (.var "p")))
    f.Native ∧
    (∃ values : List Bool,
      f.evalRows ["p", "q", "p"] [[true, true, false, true], [false, true, true, false]] = .ok values ∧
      values.length = 2 ∧ ReadsLast ["p", "q", "p"] [true, true, false, true] (fun x => x = "q") ∧
      ∃ value, values[0]? = some value ∧ (value = true ↔ f.Holds fun x => x = "q")) ∧
    f.evalRows ["p", "q", "p"] [[true], [false]] = .error (.unassigned "q") ∧
    f.evalRows ["q", "p"] [[true, false], [false, true]] =
      f.evalRows ["p", "q"] [[false, true], [true, false]] ∧
    f.evalRows ["p", "r", "q"] [[false, true, true], [true, true, false]] =
      f.evalRows ["p", "q"] [[false, true], [true, false]] ∧
    f.evalRows ["p", "q"] [[true, false], [false, true]] =
      (f.evalRows ["p", "q"] [[false, true], [true, false]]).map (rearranged [1, 0]) := by
  intro f
  have hnative : f.Native := ⟨trivial, trivial⟩
  have hreads : ReadsLast ["p", "q", "p"] [true, true, false, true] fun x => x = "q" := by
    rintro name place ⟨hlt, hnamed, hlast⟩
    rcases place with _ | _ | _ | place
    · exact absurd hnamed (hlast 2 (by decide) (by decide))
    · cases hnamed
      rfl
    · cases hnamed
      rfl
    · cases hnamed
  obtain ⟨_, hcovered, _⟩ := @evalRows_by_columns f hnative ["p", "q", "p"]
    [[true, true, false, true], [false, true, true, false]] 4 (by decide)
  obtain ⟨values, hvalues, hlength, hmeaning⟩ := hcovered (by decide +kernel)
  obtain ⟨_, _, hmissing, _⟩ :=
    @evalRows_by_columns f hnative ["p", "q", "p"] [[true], [false]] 1 (by decide)
  obtain ⟨_, _, _, horder, hfurther, hrows⟩ :=
    @evalRows_by_columns f hnative ["p", "q"] [[false, true], [true, false]] 2 (by decide)
  refine ⟨hnative, ⟨values, hvalues, hlength, hreads, (hmeaning 0 _ rfl).2 _ hreads⟩,
    hmissing (by simp) "q" (by decide +kernel), ?_, ?_, ?_⟩
  · exact horder (by decide +kernel) [1, 0] (by decide)
  · exact hfurther ["p"] ["r"] ["q"] [([false], [true], [true]), ([true], [true], [false])] rfl rfl
      (by decide) (by decide +kernel)
  · exact hrows [1, 0] (by decide)

end Propositional
