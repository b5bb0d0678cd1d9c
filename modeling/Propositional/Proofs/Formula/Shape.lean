import Propositional.Formula.Names
import Propositional.Proofs.Formula.Grammar

/-!
# The shape of tokens and formulas

Of a token the grammar sees its kind only, and of a name also the lexeme.  Since parentheses are kept
in the tree, a formula determines what is seen of the tokens that write it.

* `Token.shape` — what the grammar sees of a token; `Formula.shapes` — what it sees of all tokens that
  write a formula;
* `Derives.map_shape` — tokens that derive a formula have its shapes;
* `Formula.Native` — no leaf of a formula is foreign, and no derived formula has one;
* `Derives.occurrences_eq` — the names of a derived formula are the lexemes of its name tokens, in order.
-/

namespace Propositional

/-- What the grammar sees of a token. -/
def Token.shape (t : Token) : TokenKind × String :=
  (t.kind, if t.kind = .name then t.lexeme else "")

namespace Formula

/-- What the grammar sees of the tokens that write a formula. -/
def shapes : Formula → List (TokenKind × String)
  | var name => [(.name, name)]
  | const value => [(.const value, "")]
  | foreign _ => []
  | neg f => (.negation, "") :: f.shapes
  | group f => (.openParen, "") :: (f.shapes ++ [(.closeParen, "")])
  | binary c l r => l.shapes ++ (.connective c, "") :: r.shapes

/-- No leaf is foreign. -/
def Native : Formula → Prop
  | var _ => True
  | const _ => True
  | foreign _ => False
  | neg f => f.Native
  | group f => f.Native
  | binary _ l r => l.Native ∧ r.Native

end Formula

theorem Token.shape_eq_iff {t : Token} {kind : TokenKind} (hkind : kind ≠ .name) :
    t.shape = (kind, "") ↔ t.kind = kind := by
  constructor
  · intro h
    exact congrArg Prod.fst h
  · intro h
    subst h
    rw [Token.shape, if_neg hkind]

theorem Token.shape_eq_name_iff {t : Token} {name : String} :
    t.shape = (.name, name) ↔ t.kind = .name ∧ t.lexeme = name := by
  constructor
  · intro h
    have hkind : t.kind = .name := congrArg Prod.fst h
    have hname := congrArg Prod.snd h
    rw [Token.shape, if_pos hkind] at hname
    exact ⟨hkind, hname⟩
  · rintro ⟨hkind, rfl⟩
    rw [Token.shape, if_pos hkind, hkind]

namespace Derives

variable {level : Level} {w : List Token} {f : Formula}

/-- Tokens that derive a formula have its shapes. -/
theorem map_shape (h : Derives level w f) : w.map Token.shape = f.shapes := by
  induction h with
  | const kind => simp [Formula.shapes, (Token.shape_eq_iff (by simp)).2 kind]
  | name kind => simp [Formula.shapes, Token.shape_eq_name_iff.2 ⟨kind, rfl⟩]
  | group opens _ closes ih =>
    simp [Formula.shapes, (Token.shape_eq_iff (by simp)).2 opens,
      (Token.shape_eq_iff (by simp)).2 closes, ih]
  | primary _ ih => exact ih
  | neg kind _ ih => simp [Formula.shapes, (Token.shape_eq_iff (by simp)).2 kind, ih]
  | single _ ih => exact ih
  | fold _ kind _ ihl ihr =>
    simp [Formula.shapes, (Token.shape_eq_iff (by simp)).2 kind, ihl, ihr]

theorem native (h : Derives level w f) : f.Native := by
  induction h with
  | const _ => trivial
  | name _ => trivial
  | group _ _ _ ih => exact ih
  | primary _ ih => exact ih
  | neg _ _ ih => exact ih
  | single _ ih => exact ih
  | fold _ _ _ ihl ihr => exact ⟨ihl, ihr⟩

end Derives

/-! ### Names -/

/-- The names that occur in a derived formula are the lexemes of its name tokens, one after the other. -/
theorem Derives.occurrences_eq {level : Level} {w : List Token} {f : Formula} (h : Derives level w f) :
    f.occurrences = (w.filter fun t => t.kind = .name).map Token.lexeme := by
  induction h with
  | const kind => simp [Formula.occurrences, kind]
  | name kind => simp [Formula.occurrences, kind]
  | group opens _ closes ih => simp [Formula.occurrences, opens, closes, ih]
  | primary _ ih => exact ih
  | neg kind _ ih => simp [Formula.occurrences, kind, ih]
  | single _ ih => exact ih
  | fold _ kind _ ihl ihr => simp [Formula.occurrences, kind, ihl, ihr]

/-- Each name that occurs in a derived formula is the lexeme of a name token. -/
theorem Derives.exists_name_token {level : Level} {w : List Token} {f : Formula}
    (h : Derives level w f) {name : String} (hname : name ∈ f.occurrences) :
    ∃ t ∈ w, t.kind = .name ∧ t.lexeme = name := by
  rw [h.occurrences_eq] at hname
  obtain ⟨t, ht, hlexeme⟩ := List.mem_map.1 hname
  obtain ⟨hmem, hkind⟩ := List.mem_filter.1 ht
  exact ⟨t, hmem, of_decide_eq_true hkind, hlexeme⟩

end Propositional
