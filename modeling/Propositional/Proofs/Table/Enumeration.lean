import Mathlib.Data.Nat.Digits.Lemmas
import Propositional.Proofs.Table.Values

/-!
# The rows are all assignments, counted in binary

A row is read as a binary number, its first value being the most significant digit.  The rows of a
table count these numbers from zero on, so no assignment is missed and none comes twice.

* `rowNumber` — the number that a row writes; `rowText` — the row written with digits;
* `bitRow_succ`, `rowNumber_append` — one more digit at the end of a row, which halves the number;
* `rowNumber_bitRow`, `bitRow_rowNumber` — so rows and numbers determine each other;
* `rowNumber_lt_iff_lex` — smaller numbers are earlier rows in the order of a dictionary;
* `numeral_eq_map`, `patterns_eq_map` — the patterns are counted apart from the rows, and write them;
* `bitRows_enumerate` — the rows for any number of variables, and the patterns beside them.
-/

namespace Propositional

/-- The number that a row writes in binary, the first value being the most significant digit. -/
def rowNumber (row : List Bool) : Nat := Nat.ofDigits 2 (row.reverse.map Bool.toNat)

/-- A row written with digits. -/
def rowText (row : List Bool) : String := String.ofList (row.map bitDigit)

/-! ### One more digit -/

/-- The last of `n + 1` digits is the lowest one, and those before it are the digits of half the
number. -/
theorem bitRow_succ (n number : Nat) :
    bitRow (n + 1) number = bitRow n (number / 2) ++ [decide (number % 2 = 1)] := by
  have hplaces : ∀ place ∈ List.range n,
      number.testBit (n + 1 - 1 - place) = (number / 2).testBit (n - 1 - place) := by
    intro place hplace
    have hlt : place < n := List.mem_range.1 hplace
    have hdown : n + 1 - 1 - place = n - 1 - place + 1 := by omega
    rw [hdown, Nat.testBit_add_one]
  rw [bitRow, List.range_succ, List.map_append, List.map_congr_left hplaces, List.map_singleton,
    Nat.add_sub_cancel, Nat.sub_self, Nat.testBit_zero]
  rfl

/-- A value behind a row doubles its number. -/
theorem rowNumber_append (row : List Bool) (value : Bool) :
    rowNumber (row ++ [value]) = 2 * rowNumber row + value.toNat := by
  rw [rowNumber, List.reverse_append, List.reverse_singleton, List.singleton_append, List.map_cons,
    Nat.ofDigits_cons, Nat.add_comm]
  rfl

/-- A value in front of a row counts for the power of two that the row stays below. -/
theorem rowNumber_cons (value : Bool) (row : List Bool) :
    rowNumber (value :: row) = rowNumber row + 2 ^ row.length * value.toNat := by
  rw [rowNumber, List.map_reverse, List.map_cons, Nat.ofDigits_reverse_cons, List.length_map,
    ← List.map_reverse]
  rfl

theorem rowNumber_lt (row : List Bool) : rowNumber row < 2 ^ row.length := by
  have hdigits : ∀ digit ∈ row.reverse.map Bool.toNat, digit < 2 := by
    intro digit hdigit
    obtain ⟨value, _, rfl⟩ := List.mem_map.1 hdigit
    exact Bool.toNat_lt value
  have hlt := Nat.ofDigits_lt_base_pow_length Nat.one_lt_two hdigits
  rwa [List.length_map, List.length_reverse] at hlt

/-! ### Rows and numbers -/

/-- The digits of a number write it, if there are enough of them. -/
theorem rowNumber_bitRow {n number : Nat} (h : number < 2 ^ n) :
    rowNumber (bitRow n number) = number := by
  induction n generalizing number with
  | zero =>
    have hzero : number = 0 := by omega
    rw [hzero]
    rfl
  | succ n ih =>
    have hhalf : number / 2 < 2 ^ n := by omega
    rw [bitRow_succ, rowNumber_append, ih hhalf]
    rcases Nat.mod_two_eq_zero_or_one number with hmod | hmod
    · simp [hmod]
      omega
    · simp [hmod]
      omega

/-- A row is the digits of its number. -/
theorem bitRow_rowNumber (row : List Bool) : bitRow row.length (rowNumber row) = row := by
  induction row using List.reverseRecOn with
  | nil => rfl
  | append_singleton row value ih =>
    have hhalf : (2 * rowNumber row + value.toNat) / 2 = rowNumber row := by
      cases value with
      | false => simp
      | true =>
        simp
        omega
    have hlast : decide ((2 * rowNumber row + value.toNat) % 2 = 1) = value := by
      cases value <;> simp [Nat.add_mod]
    rw [List.length_append, List.length_singleton, rowNumber_append, bitRow_succ, hhalf, hlast, ih]

/-- Of two rows of one length the one with the smaller number comes first in a dictionary. -/
theorem rowNumber_lt_iff_lex {row other : List Bool} (h : row.length = other.length) :
    rowNumber row < rowNumber other ↔ List.Lex (· < ·) row other := by
  induction row generalizing other with
  | nil =>
    rw [List.length_eq_zero_iff.1 h.symm]
    simp
  | cons value row ih =>
    obtain _ | ⟨otherValue, other⟩ := other
    · simp at h
    have hlength : row.length = other.length := by simpa using h
    have hrow := rowNumber_lt row
    have hother := rowNumber_lt other
    rw [rowNumber_cons, rowNumber_cons, List.cons_lex_cons_iff, ← ih hlength, hlength]
    rw [hlength] at hrow
    -- the first values decide, unless they agree
    cases value with
    | false =>
      cases otherValue with
      | false => simp
      | true =>
        simp
        omega
    | true =>
      cases otherValue with
      | false =>
        have hfirst : ¬ true < false := by decide
        simp [hfirst]
        omega
      | true => simp

/-! ### The rows in order -/

/-- The row at a place is the one that writes the number of the place. -/
theorem bitRows_getElem?_eq_some_iff {n place : Nat} {row : List Bool} :
    (bitRows n)[place]? = some row ↔ row.length = n ∧ rowNumber row = place := by
  constructor
  · intro h
    have hplace : place < 2 ^ n := by
      rw [← bitRows_length n]
      exact (List.getElem?_eq_some_iff.1 h).1
    rw [bitRows_getElem? hplace] at h
    cases h
    exact ⟨bitRow_length n place, rowNumber_bitRow hplace⟩
  · rintro ⟨rfl, rfl⟩
    rw [bitRows_getElem? (rowNumber_lt row), bitRow_rowNumber]

theorem length_eq_of_mem_bitRows {n : Nat} {row : List Bool} (h : row ∈ bitRows n) :
    row.length = n := by
  obtain ⟨place, hplace⟩ := List.mem_iff_getElem?.1 h
  exact (bitRows_getElem?_eq_some_iff.1 hplace).1

/-- The rows stand in the order of a dictionary. -/
theorem pairwise_bitRows (n : Nat) : (bitRows n).Pairwise (List.Lex (· < ·)) := by
  rw [List.pairwise_iff_getElem]
  intro place later hplace hlater hlt
  have hrow := bitRows_getElem?_eq_some_iff.1 (List.getElem?_eq_getElem hplace)
  have hother := bitRows_getElem?_eq_some_iff.1 (List.getElem?_eq_getElem hlater)
  rw [← rowNumber_lt_iff_lex (hrow.1.trans hother.1.symm), hrow.2, hother.2]
  exact hlt

/-- The last digits of a number, found by halving it, are those of its row. -/
theorem numeral_eq_map (n number : Nat) : numeral n number = (bitRow n number).map bitDigit := by
  induction n generalizing number with
  | zero => rfl
  | succ n ih => rw [numeral, ih, bitRow_succ, List.map_append, List.map_singleton]

/-- The patterns are the rows written with digits. -/
theorem patterns_eq_map (n : Nat) : patterns n = (bitRows n).map rowText := by
  rw [patterns, bitRows, List.map_map]
  refine List.map_congr_left fun number _ => ?_
  rw [numeral_eq_map]
  rfl

/-- **The rows are all assignments, counted in binary.**  For any number of variables there are as many
rows as assignments, each with a value for every variable.  Every assignment is one of the rows, and
only one; the row at a place writes the number of the place, so the rows stand in the order of a
dictionary.  There are as many patterns, and the one at a place is the row there, written with digits. -/
theorem bitRows_enumerate (n : Nat) :
    (bitRows n).length = 2 ^ n ∧ (∀ row ∈ bitRows n, row.length = n) ∧
    (∀ row : List Bool, row.length = n → ∃! place : Nat, (bitRows n)[place]? = some row) ∧
    (∀ (place : Nat) (row : List Bool), (bitRows n)[place]? = some row → rowNumber row = place) ∧
    (bitRows n).Pairwise (List.Lex (· < ·)) ∧
    (patterns n).length = (bitRows n).length ∧
    ∀ (place : Nat) (row : List Bool), (bitRows n)[place]? = some row →
      (patterns n)[place]? = some (String.ofList (row.map bitDigit)) := by
  refine ⟨bitRows_length n, fun row => length_eq_of_mem_bitRows, ?_, ?_, pairwise_bitRows n, ?_, ?_⟩
  · intro row hlength
    refine ⟨rowNumber row, bitRows_getElem?_eq_some_iff.2 ⟨hlength, rfl⟩, fun place hplace => ?_⟩
    exact (bitRows_getElem?_eq_some_iff.1 hplace).2.symm
  · intro place row hplace
    exact (bitRows_getElem?_eq_some_iff.1 hplace).2
  · rw [patterns_eq_map, List.length_map]
  · intro place row hplace
    rw [patterns_eq_map, List.getElem?_map, hplace]
    rfl

/-- The assignment of the first and third of three variables is the sixth row and no other one, and
without variables the one row is empty. -/
theorem bitRows_enumerate_three :
    rowNumber [true, false, true] = 5 ∧ (patterns 3)[5]? = some "101" ∧
      (∃! place : Nat, (bitRows 3)[place]? = some [true, false, true]) ∧
      bitRows 0 = [[]] ∧ (patterns 0)[0]? = some "" := by
  have hrow : (bitRows 3)[5]? = some [true, false, true] := by decide
  have hnone : bitRows 0 = [[]] := rfl
  have hempty : (bitRows 0)[0]? = some [] := rfl
  obtain ⟨_, _, honce, hnumber, _, _, hpattern⟩ := bitRows_enumerate 3
  obtain ⟨_, _, _, _, _, _, hpatternZero⟩ := bitRows_enumerate 0
  exact ⟨hnumber 5 _ hrow, hpattern 5 _ hrow, honce _ rfl, hnone, hpatternZero 0 _ hempty⟩

end Propositional
