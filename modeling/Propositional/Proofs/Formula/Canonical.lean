import Propositional.Proofs.Formula.Shape
import Propositional.Proofs.Token.LexicalGrammar

/-!
# Canonical formulas

The grammar gives every formula a level, and says at which levels its operands stand.  Here both are said
of the tree alone, without tokens:

* `Level.strength` — how tightly a level binds; `Formula.strength` — the level at which a tree is written;
* `Formula.Graded` — every operator of a tree binds its operands as the grammar does;
* `Formula.Canonical` — a graded tree whose names are names;
* `Formula.depth` — how deep groups are nested in a tree;
* `Derives.graded`, `Graded.derives` — the derived trees are the graded ones, and tokens with the shapes
  of a graded tree derive it;
* `Derives.nestedBelow_iff` — parentheses are nested as deep as the groups of the tree.
-/

namespace Propositional

/-! ### Levels by strength -/

/-- How tightly a level binds. -/
def Level.strength : Level → Nat
  | binary c => c.strength
  | negation => 5
  | primary => 6

theorem Connective.strength_operandLevel (c : Connective) :
    c.operandLevel.strength = c.strength + 1 := by
  cases c <;> rfl

namespace Level

theorem loosest_strength_le (level : Level) : loosest.strength ≤ level.strength := by
  cases level with
  | binary c => cases c <;> decide
  | negation => decide
  | primary => decide

theorem strength_le_primary (level : Level) : level.strength ≤ primary.strength := by
  cases level with
  | binary c => cases c <;> decide
  | negation => decide
  | primary => decide

theorem strength_injective {level other : Level} (h : level.strength = other.strength) :
    level = other := by
  have hbinary : ∀ c : Connective, c.strength < 5 := by
    intro c
    cases c <;> decide
  cases level with
  | binary c =>
    have hc := hbinary c
    cases other with
    | binary d => rw [Connective.strength_injective h]
    | negation => exact absurd h (Nat.ne_of_lt hc)
    | primary => exact absurd h (Nat.ne_of_lt (Nat.lt_succ_of_lt hc))
  | negation =>
    cases other with
    | binary d => exact absurd h.symm (Nat.ne_of_lt (hbinary d))
    | negation => rfl
    | primary => cases h
  | primary =>
    cases other with
    | binary d => exact absurd h.symm (Nat.ne_of_lt (Nat.lt_succ_of_lt (hbinary d)))
    | negation => cases h
    | primary => rfl

end Level

/-- What is derived at a level is derived at every looser one. -/
theorem Derives.loosen {level tighter : Level} {w : List Token} {f : Formula}
    (h : Derives tighter w f) (hle : level.strength ≤ tighter.strength) : Derives level w f := by
  -- the induction goes down from the tightest level, and stops where the two levels are the same
  induction level using Level.induction with
  | primary =>
    have hsame := Level.strength_injective (Nat.le_antisymm hle tighter.strength_le_primary)
    rwa [hsame]
  | negation ih =>
    rcases Nat.eq_or_lt_of_le hle with heq | hlt
    · rwa [Level.strength_injective heq]
    · exact .primary (ih hlt)
  | binary c ih =>
    rcases Nat.eq_or_lt_of_le hle with heq | hlt
    · rwa [Level.strength_injective heq]
    · refine .single (ih ?_)
      rw [c.strength_operandLevel]
      exact hlt

/-! ### Trees -/

namespace Formula

/-- The level at which a formula is written. -/
def level : Formula → Level
  | binary c _ _ => .binary c
  | neg _ => .negation
  | _ => .primary

/-- How tightly a formula holds together. -/
def strength (f : Formula) : Nat := f.level.strength

/-- Every operand binds tightly enough: that of a negation is no binary formula, and of the operands of
a connective the left one binds at least as tightly as the connective and the right one more. -/
def Graded : Formula → Prop
  | neg f => Level.negation.strength ≤ f.strength ∧ f.Graded
  | group f => f.Graded
  | binary c l r => (c.strength ≤ l.strength ∧ l.Graded) ∧ c.strength < r.strength ∧ r.Graded
  | _ => True

/-- How deep groups are nested. -/
def depth : Formula → Nat
  | neg f => f.depth
  | group f => f.depth + 1
  | binary _ l r => max l.depth r.depth
  | _ => 0

/-- A canonical formula: it has no foreign leaf, its names are names, and every operator binds its
operands as the grammar does. -/
structure Canonical (f : Formula) : Prop where
  native : f.Native
  names : ∀ name ∈ f.occurrences, IsName name.toList
  graded : f.Graded

/-! ### Canonicity can be computed -/

instance decidableNative : (f : Formula) → Decidable f.Native
  | var _ => .isTrue trivial
  | const _ => .isTrue trivial
  | foreign _ => .isFalse id
  | neg f => f.decidableNative
  | group f => f.decidableNative
  | binary _ l r => @instDecidableAnd _ _ l.decidableNative r.decidableNative

instance decidableGraded : (f : Formula) → Decidable f.Graded
  | var _ => .isTrue trivial
  | const _ => .isTrue trivial
  | foreign _ => .isTrue trivial
  | neg f => @instDecidableAnd _ _ _ f.decidableGraded
  | group f => f.decidableGraded
  | binary _ l r => @instDecidableAnd _ _ (@instDecidableAnd _ _ _ l.decidableGraded)
      (@instDecidableAnd _ _ _ r.decidableGraded)

instance decidableIsName : (name : List Char) → Decidable (IsName name)
  | [] => .isFalse id
  | c :: digits =>
    decidable_of_iff ((Text.isLetter c = true ∧ c ≠ 'v') ∧ digits.all Char.isDigit = true)
      (by simp [IsName, and_assoc])

instance decidableCanonical (f : Formula) : Decidable f.Canonical :=
  decidable_of_iff
    (f.Native ∧ (f.occurrences.all fun name => decide (IsName name.toList)) = true ∧ f.Graded)
    ⟨fun h => ⟨h.1, by simpa using h.2.1, h.2.2⟩,
      fun h => ⟨h.native, by simpa using h.names, h.graded⟩⟩

end Formula

/-! ### Derived trees -/

/-- A derived tree is graded, and binds at least as tightly as its level. -/
theorem Derives.graded {level : Level} {w : List Token} {f : Formula} (h : Derives level w f) :
    f.Graded ∧ level.strength ≤ f.strength := by
  induction h with
  | const _ => exact ⟨trivial, Nat.le_refl _⟩
  | name _ => exact ⟨trivial, Nat.le_refl _⟩
  | group _ _ _ ih => exact ⟨ih.1, Nat.le_refl _⟩
  | primary _ ih => exact ⟨ih.1, Nat.le_trans (Nat.le_succ _) ih.2⟩
  | neg _ _ ih => exact ⟨⟨ih.2, ih.1⟩, Nat.le_refl _⟩
  | @single c _ _ _ ih =>
    rw [c.strength_operandLevel] at ih
    exact ⟨ih.1, Nat.le_of_succ_le ih.2⟩
  | @fold c _ _ _ _ _ _ _ _ ihl ihr =>
    rw [c.strength_operandLevel] at ihr
    exact ⟨⟨⟨ihl.2, ihl.1⟩, ihr.2, ihr.1⟩, Nat.le_refl _⟩

/-- Tokens with the shapes of a graded tree derive it at its level. -/
theorem Formula.Graded.derives {f : Formula} (hgraded : f.Graded) (hnative : f.Native)
    {w : List Token} (hw : w.map Token.shape = f.shapes) : Derives f.level w f := by
  induction f generalizing w with
  | var name =>
    obtain ⟨t, rfl, ht⟩ := List.map_eq_singleton_iff.1 hw
    obtain ⟨hkind, rfl⟩ := Token.shape_eq_name_iff.1 ht
    exact .name hkind
  | const value =>
    obtain ⟨t, rfl, ht⟩ := List.map_eq_singleton_iff.1 hw
    exact .const ((Token.shape_eq_iff (by simp)).1 ht)
  | foreign typeName => exact hnative.elim
  | neg f ih =>
    obtain ⟨sign, v, rfl, hsign, hv⟩ := List.map_eq_cons_iff.1 hw
    have hoperand : Derives f.level v f := ih hgraded.2 hnative hv
    exact .neg ((Token.shape_eq_iff (by simp)).1 hsign) (hoperand.loosen hgraded.1)
  | group f ih =>
    obtain ⟨opening, v, rfl, hopening, hv⟩ := List.map_eq_cons_iff.1 hw
    obtain ⟨inner, last, rfl, hinner, hlast⟩ := List.map_eq_append_iff.1 hv
    obtain ⟨closing, rfl, hclosing⟩ := List.map_eq_singleton_iff.1 hlast
    have hinside : Derives f.level inner f := ih hgraded hnative hinner
    exact .group ((Token.shape_eq_iff (by simp)).1 hopening)
      (hinside.loosen f.level.loosest_strength_le) ((Token.shape_eq_iff (by simp)).1 hclosing)
  | binary c l r ihl ihr =>
    obtain ⟨left, v, rfl, hleft, hv⟩ := List.map_eq_append_iff.1 hw
    obtain ⟨sign, right, rfl, hsign, hright⟩ := List.map_eq_cons_iff.1 hv
    obtain ⟨⟨hl, hlGraded⟩, hr, hrGraded⟩ := hgraded
    have hleftOperand : Derives l.level left l := ihl hlGraded hnative.1 hleft
    have hrightOperand : Derives r.level right r := ihr hrGraded hnative.2 hright
    refine .fold (hleftOperand.loosen hl) ((Token.shape_eq_iff (by simp)).1 hsign)
      (hrightOperand.loosen ?_)
    rw [c.strength_operandLevel]
    exact hr

/-- Parentheses are nested as deep as the groups of the tree. -/
theorem Derives.nestedBelow_iff {level : Level} {w : List Token} {f : Formula}
    (h : Derives level w f) {depth : Nat} : NestedBelow depth w ↔ f.depth < depth := by
  induction h generalizing depth with
  | const kind => exact ⟨NestedBelow.pos, NestedBelow.singleton (by simp [kind])⟩
  | name kind => exact ⟨NestedBelow.pos, NestedBelow.singleton (by simp [kind])⟩
  | @group opening closing w f opens inner closes ih =>
    cases depth with
    | zero =>
      constructor
      · intro hnest
        exact absurd hnest.pos (Nat.lt_irrefl 0)
      · intro hdepth
        exact absurd hdepth (Nat.not_lt_zero _)
    | succ depth =>
      rw [NestedBelow.group_iff opens closes inner.balanced, ih]
      exact Nat.succ_lt_succ_iff.symm
  | primary _ ih => exact ih
  | neg kind _ ih => rw [NestedBelow.cons_iff (by simp [kind]) (by simp [kind]), ih, Formula.depth]
  | single _ ih => exact ih
  | fold left kind _ ihl ihr =>
    rw [NestedBelow.append_iff left.balanced, NestedBelow.cons_iff (by simp [kind]) (by simp [kind]),
      ihl, ihr, Formula.depth, Nat.max_lt]

end Propositional
