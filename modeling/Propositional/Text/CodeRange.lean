/-!
# Tables of code point ranges

A character class is written as a table of ranges of code points, first and last included, in
increasing order and with a gap between neighbours.

* `CodeRanges.contains` — does a code point lie in the table?
* `CodeRanges.clip` — the part of a table inside an interval;
* `CodeRanges.contains_clip` — a code point lies in the clipped table exactly if it lies in both.
-/

namespace Propositional.Text

/-- Ranges of code points, each given by its first and its last member. -/
abbrev CodeRanges := List (Nat × Nat)

namespace CodeRanges

/-- Does a code point lie in one of the ranges? -/
def contains (table : CodeRanges) (code : Nat) : Bool :=
  table.any fun range => range.1 ≤ code && code ≤ range.2

/-- The part of a table that lies between `low` and `high`, both included. -/
def clip (low high : Nat) (table : CodeRanges) : CodeRanges :=
  (table.map fun range => (max low range.1, min high range.2)).filter
    fun range => range.1 ≤ range.2

theorem contains_clip (low high code : Nat) (table : CodeRanges) :
    (table.clip low high).contains code = true ↔
      (low ≤ code ∧ code ≤ high) ∧ table.contains code = true := by
  simp only [contains, clip, List.any_eq_true, List.mem_filter, List.mem_map, Bool.and_eq_true,
    decide_eq_true_eq]
  constructor
  · rintro ⟨range, ⟨⟨source, hmem, rfl⟩, _⟩, hlow, hhigh⟩
    simp only [Nat.max_le, Nat.le_min] at hlow hhigh
    exact ⟨⟨hlow.1, hhigh.1⟩, source, hmem, hlow.2, hhigh.2⟩
  · rintro ⟨⟨hlow, hhigh⟩, source, hmem, hfirst, hlast⟩
    have h₁ : max low source.1 ≤ code := Nat.max_le.2 ⟨hlow, hfirst⟩
    have h₂ : code ≤ min high source.2 := Nat.le_min.2 ⟨hhigh, hlast⟩
    exact ⟨_, ⟨⟨source, hmem, rfl⟩, Nat.le_trans h₁ h₂⟩, h₁, h₂⟩

end CodeRanges

end Propositional.Text
