import Propositional.Proofs.Table.Enumeration
import Propositional.Proofs.Table.Outcome

/-!
# The views of a table agree

The rows that are true, their patterns, the lines of the table and its numbers are found in ways of
their own.  Here all of them are led back to the places of the rows.

* `TruthTable.Counted` — the rows of a table are counted in binary, and each of them has a value;
  `counted_of_truthTable` — so it is for the table of a text;
* `StandsAt` — what stands at some places of a list; `standsAt_filter` — the places that are kept;
* `TruthTable.TrueAt` — the places of the true values;
* `TruthTable.Selects`, `TruthTable.Prints`, `TruthTable.Tabulates` — what the selection, the lines and
  the numbers of a table are;
* `truthTable_views` — for the table of a text all of this holds, with the same places.
-/

namespace Propositional

/-! ### Places -/

/-- What stands at some places of a list, one item for each place. -/
def StandsAt {α : Type} (items : List α) (places : List Nat) (picked : List α) : Prop :=
  picked.map some = places.map fun place => items[place]?

/-- Of items that are counted, those that are kept stand at the places that are kept. -/
theorem standsAt_filter {α : Type} (count : Nat) (item : Nat → α) (keep : Nat → Bool) :
    StandsAt ((List.range count).map item) ((List.range count).filter keep)
      (((List.range count).filter keep).map item) := by
  rw [StandsAt, List.map_map]
  refine List.map_congr_left fun place hplace => ?_
  have hlt : place < count := List.mem_range.1 (List.mem_filter.1 hplace).1
  simp [hlt]

/-- A selection from items by flags keeps the items whose flag is set. -/
theorem pick_map {α β : Type} (places : List α) (item : α → β) (flag : α → Bool) :
    TruthTable.pick (places.map item) (places.map flag) = (places.filter flag).map item := by
  rw [TruthTable.pick, List.zip_map', List.filter_map, List.map_map]
  rfl

namespace TruthTable

/-- The rows of a table are counted in binary, and each of them has a value. -/
structure Counted (t : TruthTable) : Prop where
  rows : t.rows = bitRows t.names.length
  values : t.values.length = 2 ^ t.names.length

/-- The value at a place; beyond the last one it is false. -/
def valueOf (t : TruthTable) (place : Nat) : Bool := t.values.getD place false

/-- The places at which the value is true. -/
def truePlaces (t : TruthTable) : List Nat := (List.range (2 ^ t.names.length)).filter t.valueOf

/-! ### What the views are -/

/-- These are the places at which the value is true, from the first to the last. -/
structure TrueAt (t : TruthTable) (places : List Nat) : Prop where
  increasing : places.Pairwise (· < ·)
  mem_iff : ∀ place, place ∈ places ↔ t.values[place]? = some true

/-- The selection of the true rows consists of the rows at these places, in their order and each once.
Beside them stand their patterns: the rows written with digits, which are the binary numerals of the
places. -/
structure Selects (t : TruthTable) (places : List Nat) (rows : List (List Bool))
    (patterns : List String) : Prop where
  standsAt : StandsAt t.rows places rows
  nodup : rows.Nodup
  written : patterns = rows.map fun row => String.ofList (row.map bitDigit)
  numbers : rows.map rowNumber = places
  widths : ∀ row ∈ rows, row.length = t.names.length
  count : rows.length = t.values.count true

/-- Behind the header there is a line for each row, with the symbols of its values and of its own value;
of these lines only those at the true places remain if no other rows are wanted. -/
structure Prints (t : TruthTable) (trueSymbol falseSymbol : String) (places : List Nat)
    (lines onesLines : List String) : Prop where
  all : t.format trueSymbol falseSymbol false = t.header :: lines
  length : lines.length = t.rows.length
  line : ∀ (place : Nat) (row : List Bool) (value : Bool), t.rows[place]? = some row →
    t.values[place]? = some value → lines[place]? = some (" ".intercalate
      ((row ++ [value]).map fun value => if value then trueSymbol else falseSymbol))
  ones : t.format trueSymbol falseSymbol true = t.header :: onesLines
  chosen : StandsAt lines places onesLines
  ending : ∀ line ∈ onesLines, ∃ front, line = front ++ trueSymbol

/-- The numbers of a table are its rows and values, each written as zero or one. -/
structure Tabulates (t : TruthTable) (numbers : List (List Nat)) : Prop where
  length : numbers.length = t.rows.length
  row : ∀ (place : Nat) (row : List Bool) (value : Bool), t.rows[place]? = some row →
    t.values[place]? = some value → numbers[place]? = some (row.map Bool.toNat ++ [value.toNat])

/-- The line of a row whose value is true ends in the symbol for it. -/
theorem exists_formatRow_true (trueSymbol falseSymbol : String) (row : List Bool) :
    ∃ front, formatRow trueSymbol falseSymbol (row, true) = front ++ trueSymbol := by
  rw [formatRow, List.map_append, List.map_singleton, if_pos rfl]
  cases row with
  | nil => exact ⟨"", by simp⟩
  | cons value row =>
    rw [String.intercalate_append_of_ne_nil (by simp) (by simp), String.intercalate_singleton]
    exact ⟨_, rfl⟩

/-! ### Tables that are counted -/

namespace Counted

variable {t : TruthTable} (h : t.Counted)

include h

theorem rows_eq_map : t.rows = (List.range (2 ^ t.names.length)).map (bitRow t.names.length) := h.rows

theorem values_eq_map : t.values = (List.range (2 ^ t.names.length)).map t.valueOf := by
  refine List.ext_getElem (by simp [h.values]) fun place hplace _ => ?_
  simp [valueOf, hplace]

theorem length_eq : t.values.length = t.rows.length := by
  rw [h.values, h.rows, bitRows_length]

theorem trueAt : t.TrueAt t.truePlaces where
  increasing := List.pairwise_lt_range.filter _
  mem_iff place := by
    rw [truePlaces, List.mem_filter, List.mem_range, ← h.values, valueOf, List.getD_eq_getElem?_getD]
    cases hvalue : t.values[place]? with
    | none => simp
    | some value =>
      have hlt := (List.getElem?_eq_some_iff.1 hvalue).1
      simp [hlt]

theorem ones_eq : t.ones = .ok (t.truePlaces.map (bitRow t.names.length),
    t.truePlaces.map fun place => rowText (bitRow t.names.length place)) := by
  have hpatterns : t.patterns = (List.range (2 ^ t.names.length)).map
      fun place => rowText (bitRow t.names.length place) := by
    rw [TruthTable.patterns, patterns_eq_map, bitRows, List.map_map]
    rfl
  have hlength : t.values.length = t.patterns.length := by
    rw [h.values, hpatterns, List.length_map, List.length_range]
  have hrows : pick t.rows t.values = t.truePlaces.map (bitRow t.names.length) := by
    rw [h.values_eq_map, h.rows_eq_map, pick_map]
    rfl
  have htexts : pick t.patterns t.values =
      t.truePlaces.map fun place => rowText (bitRow t.names.length place) := by
    rw [h.values_eq_map, hpatterns, pick_map]
    rfl
  rw [ones, select_of_length_eq h.length_eq, select_of_length_eq hlength, hrows, htexts]
  rfl

theorem selects : t.Selects t.truePlaces (t.truePlaces.map (bitRow t.names.length))
    (t.truePlaces.map fun place => rowText (bitRow t.names.length place)) := by
  have hnumbers : (t.truePlaces.map (bitRow t.names.length)).map rowNumber = t.truePlaces := by
    rw [List.map_map]
    refine (List.map_congr_left fun place hplace => ?_).trans (List.map_id _)
    exact rowNumber_bitRow (List.mem_range.1 (List.mem_filter.1 hplace).1)
  exact {
    standsAt := by
      rw [h.rows_eq_map]
      exact standsAt_filter _ _ _
    nodup := by
      -- rows that write different numbers are different
      refine List.Nodup.of_map rowNumber ?_
      rw [hnumbers]
      exact h.trueAt.increasing.imp Nat.ne_of_lt
    written := by
      rw [List.map_map]
      rfl
    numbers := hnumbers
    widths := by
      intro row hrow
      obtain ⟨place, _, rfl⟩ := List.mem_map.1 hrow
      exact bitRow_length _ place
    count := by
      rw [h.values_eq_map, List.length_map, truePlaces, List.count, List.countP_map,
        List.countP_eq_length_filter]
      simp [Function.comp_def] }

/-- The rows that are shown stand at the places that are kept, each with its value. -/
theorem shownRows_eq (onlyOnes : Bool) : t.shownRows onlyOnes =
    ((List.range (2 ^ t.names.length)).filter fun place => !onlyOnes || t.valueOf place).map
      fun place => (bitRow t.names.length place, t.valueOf place) := by
  rw [shownRows, h.values_eq_map, h.rows_eq_map, List.zip_map', List.filter_map]
  rfl

theorem prints (trueSymbol falseSymbol : String) :
    ∃ lines onesLines, t.Prints trueSymbol falseSymbol t.truePlaces lines onesLines := by
  let line (place : Nat) : String :=
    formatRow trueSymbol falseSymbol (bitRow t.names.length place, t.valueOf place)
  refine ⟨(List.range (2 ^ t.names.length)).map line, t.truePlaces.map line, ?_⟩
  exact {
    all := by
      rw [format, h.shownRows_eq, List.map_map]
      simp [Function.comp_def, line]
    length := by rw [List.length_map, List.length_range, h.rows, bitRows_length]
    line := by
      intro place row value hrow hvalue
      have hlt : place < 2 ^ t.names.length := by
        rw [← h.values]
        exact (List.getElem?_eq_some_iff.1 hvalue).1
      rw [h.rows, bitRows_getElem? hlt] at hrow
      have hvalueOf : t.valueOf place = value := by
        rw [valueOf, List.getD_eq_getElem?_getD, hvalue]
        rfl
      cases hrow
      simp [hlt, line, formatRow, hvalueOf]
    ones := by
      rw [format, h.shownRows_eq, List.map_map]
      rfl
    chosen := standsAt_filter _ _ _
    ending := by
      intro text htext
      obtain ⟨place, hplace, rfl⟩ := List.mem_map.1 htext
      have htrue : t.valueOf place = true := (List.mem_filter.1 hplace).2
      show ∃ front, formatRow trueSymbol falseSymbol (bitRow t.names.length place, t.valueOf place) = _
      rw [htrue]
      exact exists_formatRow_true trueSymbol falseSymbol _ }

theorem tabulates : t.array = .ok t.cells ∧ t.Tabulates t.cells := by
  refine ⟨if_pos h.length_eq.symm, ?_, ?_⟩
  · rw [cells, List.length_zipWith, h.length_eq, Nat.min_self]
  · intro place row value hrow hvalue
    rw [cells, List.getElem?_zipWith_eq_some]
    exact ⟨row, value, hrow, hvalue, by rw [List.map_append, List.map_singleton]⟩

end Counted

end TruthTable

/-- The rows of the table of a text are counted in binary, and each of them has a value. -/
theorem counted_of_truthTable {source : String} {strict : Bool} {maxVars : Option Int}
    {table : TruthTable} (h : truthTable source strict maxVars = .ok table) : table.Counted where
  rows := by
    obtain ⟨_, _, _, _, htable⟩ := truthTable_eq_ok_iff.1 h
    exact (table_eq_ok_iff.1 htable).2.2.1
  values := (regular_of_truthTable h).values

/-- **The views of a table agree.**  For the table of a text and any two symbols the places of the true
values decide about all of it.  The selection of the true rows and of their patterns stands at these
places; the lines are those of all rows with their values, of which only those at these places are left
if no others are wanted; and the numbers are the rows with their values. -/
theorem truthTable_views {source : String} {strict : Bool} {maxVars : Option Int}
    {table : TruthTable} (h : truthTable source strict maxVars = .ok table)
    (trueSymbol falseSymbol : String) :
    table.values.length = table.rows.length ∧
    ∃ places rows patterns lines onesLines numbers,
      table.TrueAt places ∧
      table.ones = .ok (rows, patterns) ∧ table.Selects places rows patterns ∧
      table.Prints trueSymbol falseSymbol places lines onesLines ∧
      table.array = .ok numbers ∧ table.Tabulates numbers := by
  have hcounted := counted_of_truthTable h
  obtain ⟨lines, onesLines, hprints⟩ := hcounted.prints trueSymbol falseSymbol
  obtain ⟨harray, htabulates⟩ := hcounted.tabulates
  exact ⟨hcounted.length_eq, table.truePlaces, _, _, lines, onesLines, table.cells, hcounted.trueAt,
    hcounted.ones_eq, hcounted.selects, hprints, harray, htabulates⟩

/-- Three of four rows are true; one of the symbols is empty, and what stands behind the formula plays no
part. -/
theorem truthTable_views_implication :
    ∃ table, truthTable "p -> q ) r" false (some 2) = .ok table ∧
      table.format "yes" "" true = ["p q p → q", "  yes", " yes yes", "yes yes yes"] ∧
      ∃ places lines onesLines numbers, table.TrueAt places ∧
        table.Selects places [[false, false], [false, true], [true, true]] ["00", "01", "11"] ∧
        table.Prints "yes" "" places lines onesLines ∧ table.Tabulates numbers := by
  have htable : truthTable "p -> q ) r" false (some 2) =
      .ok ⟨["p", "q"], "p → q", bitRows 2, [true, true, false, true]⟩ := by decide +kernel
  obtain ⟨_, places, rows, patterns, lines, onesLines, numbers, htrue, hones, hselects, hprints, _,
    htabulates⟩ := truthTable_views htable "yes" ""
  have hchosen : TruthTable.ones ⟨["p", "q"], "p → q", bitRows 2, [true, true, false, true]⟩ =
      .ok ([[false, false], [false, true], [true, true]], ["00", "01", "11"]) := by decide +kernel
  rw [hchosen] at hones
  cases hones
  exact ⟨_, htable, by decide +kernel, places, lines, onesLines, numbers, htrue, hselects, hprints,
    htabulates⟩

end Propositional
