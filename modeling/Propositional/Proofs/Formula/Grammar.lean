import Propositional.Formula.Reader

/-!
# The grammar of formulas

* `Connective.operandLevel` — the level of the operands of a connective; `Level.induction` — from the
  tightest level to the loosest;
* `Derives` — which tokens write which formula at a level of the grammar: every binary level folds to
  the left, and a pair of parentheses gives a group;
* `Derives.of_map_kind` — what is derived of some tokens is derived of all tokens of these kinds, up to
  the names;
* `openCount`, `closeCount`, `NestedWithin`, `NestedBelow` — how deep parentheses are nested, counted
  on the tokens alone;
* `Derives.balanced` — a derived sequence has as many closing as opening parentheses.
-/

namespace Propositional

/-- The level of the operands of a connective. -/
def Connective.operandLevel : Connective → Level
  | iff => .binary .imp
  | imp => .binary .disj
  | disj => .binary .conj
  | conj => .negation

/-- What holds at the tightest level and is handed on from each level to the next looser one holds at
every level. -/
theorem Level.induction {motive : Level → Prop} (primary : motive .primary)
    (negation : motive .primary → motive .negation)
    (binary : ∀ c : Connective, motive c.operandLevel → motive (.binary c)) (level : Level) :
    motive level := by
  have hnegation : motive .negation := negation primary
  have hconj : motive (.binary .conj) := binary .conj hnegation
  have hdisj : motive (.binary .disj) := binary .disj hconj
  have himp : motive (.binary .imp) := binary .imp hdisj
  cases level with
  | primary => exact primary
  | negation => exact hnegation
  | binary c =>
    cases c with
    | conj => exact hconj
    | disj => exact hdisj
    | imp => exact himp
    | iff => exact binary .iff himp

/-- The derivations of the grammar.  Of a token only its kind counts, and the lexeme of a name. -/
inductive Derives : Level → List Token → Formula → Prop
  | const {t : Token} {value : Bool} (kind : t.kind = .const value) :
      Derives .primary [t] (.const value)
  | name {t : Token} (kind : t.kind = .name) : Derives .primary [t] (.var t.lexeme)
  | group {opening closing : Token} {w : List Token} {f : Formula}
      (opens : opening.kind = .openParen) (inner : Derives .loosest w f)
      (closes : closing.kind = .closeParen) :
      Derives .primary (opening :: (w ++ [closing])) (.group f)
  | primary {w : List Token} {f : Formula} (operand : Derives .primary w f) :
      Derives .negation w f
  | neg {sign : Token} {w : List Token} {f : Formula} (kind : sign.kind = .negation)
      (operand : Derives .negation w f) : Derives .negation (sign :: w) (.neg f)
  | single {c : Connective} {w : List Token} {f : Formula}
      (operand : Derives c.operandLevel w f) : Derives (.binary c) w f
  | fold {c : Connective} {u w : List Token} {sign : Token} {f g : Formula}
      (left : Derives (.binary c) u f) (kind : sign.kind = .connective c)
      (right : Derives c.operandLevel w g) :
      Derives (.binary c) (u ++ sign :: w) (.binary c f g)

/-- A primary does not begin with a negation sign. -/
theorem Derives.head_primary {w : List Token} {f : Formula} (h : Derives .primary w f) :
    ∃ t later, w = t :: later ∧ t.kind ≠ .negation := by
  cases h with
  | const kind => exact ⟨_, _, rfl, by simp [kind]⟩
  | name kind => exact ⟨_, _, rfl, by simp [kind]⟩
  | group opens _ _ => exact ⟨_, _, rfl, by simp [opens]⟩

/-- Nothing is derived from no tokens. -/
theorem Derives.ne_nil {level : Level} {w : List Token} {f : Formula} (h : Derives level w f) :
    w ≠ [] := by
  induction h with
  | const _ => simp
  | name _ => simp
  | group _ _ _ _ => simp
  | primary _ ih => exact ih
  | neg _ _ _ => simp
  | single _ ih => exact ih
  | fold _ _ _ _ _ => simp

/-- What can be derived depends on the kinds alone; the names follow the lexemes. -/
theorem Derives.of_map_kind {level : Level} {w v : List Token} {f : Formula}
    (h : Derives level w f) (hv : v.map Token.kind = w.map Token.kind) :
    ∃ g, Derives level v g := by
  induction h generalizing v with
  | const kind =>
    obtain ⟨t, rfl, ht⟩ := List.map_eq_singleton_iff.1 hv
    exact ⟨_, .const (ht.trans kind)⟩
  | name kind =>
    obtain ⟨t, rfl, ht⟩ := List.map_eq_singleton_iff.1 hv
    exact ⟨_, .name (ht.trans kind)⟩
  | group opens _ closes ih =>
    rw [List.map_cons, List.map_append] at hv
    obtain ⟨opening, v, rfl, hopening, hv⟩ := List.map_eq_cons_iff.1 hv
    obtain ⟨inner, last, rfl, hinner, hlast⟩ := List.map_eq_append_iff.1 hv
    obtain ⟨closing, rfl, hclosing⟩ := List.map_eq_singleton_iff.1 hlast
    obtain ⟨g, hg⟩ := ih hinner
    exact ⟨_, .group (hopening.trans opens) hg (hclosing.trans closes)⟩
  | primary _ ih =>
    obtain ⟨g, hg⟩ := ih hv
    exact ⟨g, .primary hg⟩
  | neg kind _ ih =>
    obtain ⟨sign, v, rfl, hsign, hv⟩ := List.map_eq_cons_iff.1 hv
    obtain ⟨g, hg⟩ := ih hv
    exact ⟨_, .neg (hsign.trans kind) hg⟩
  | single _ ih =>
    obtain ⟨g, hg⟩ := ih hv
    exact ⟨g, .single hg⟩
  | fold _ kind _ ihl ihr =>
    rw [List.map_append, List.map_cons] at hv
    obtain ⟨left, v, rfl, hleft, hv⟩ := List.map_eq_append_iff.1 hv
    obtain ⟨sign, right, rfl, hsign, hright⟩ := List.map_eq_cons_iff.1 hv
    obtain ⟨f, hf⟩ := ihl hleft
    obtain ⟨g, hg⟩ := ihr hright
    exact ⟨_, .fold hf (hsign.trans kind) hg⟩

/-! ### Nesting of parentheses -/

/-- The number of opening parentheses. -/
def openCount (ts : List Token) : Nat := ts.countP fun t => t.kind = .openParen

/-- The number of closing parentheses. -/
def closeCount (ts : List Token) : Nat := ts.countP fun t => t.kind = .closeParen

/-- At no place are more than `limit` parentheses open. -/
def NestedWithin (limit : Nat) (ts : List Token) : Prop :=
  ∀ u, u <+: ts → openCount u ≤ closeCount u + limit

/-- At every place fewer than `depth` parentheses are open. -/
def NestedBelow (depth : Nat) (ts : List Token) : Prop :=
  ∀ u, u <+: ts → openCount u < closeCount u + depth

theorem nestedWithin_iff_nestedBelow {limit : Nat} {ts : List Token} :
    NestedWithin limit ts ↔ NestedBelow (limit + 1) ts := by
  constructor <;> intro h u hu <;> have := h u hu <;> omega

@[simp] theorem openCount_nil : openCount [] = 0 := rfl

@[simp] theorem closeCount_nil : closeCount [] = 0 := rfl

@[simp] theorem openCount_append (u w : List Token) :
    openCount (u ++ w) = openCount u + openCount w := List.countP_append

@[simp] theorem closeCount_append (u w : List Token) :
    closeCount (u ++ w) = closeCount u + closeCount w := List.countP_append

@[simp] theorem openCount_cons (t : Token) (w : List Token) :
    openCount (t :: w) = openCount w + if t.kind = .openParen then 1 else 0 := by
  simp [openCount, List.countP_cons]

@[simp] theorem closeCount_cons (t : Token) (w : List Token) :
    closeCount (t :: w) = closeCount w + if t.kind = .closeParen then 1 else 0 := by
  simp [closeCount, List.countP_cons]

/-- A derived sequence has as many closing as opening parentheses. -/
theorem Derives.balanced {level : Level} {w : List Token} {f : Formula}
    (h : Derives level w f) : openCount w = closeCount w := by
  induction h with
  | const kind => simp [kind]
  | name kind => simp [kind]
  | group opens _ closes ih => simp [opens, closes, ih]
  | primary _ ih => exact ih
  | neg kind _ ih => simp [kind, ih]
  | single _ ih => exact ih
  | fold _ kind _ ihl ihr => simp [kind, ihl, ihr]

namespace NestedBelow

variable {depth : Nat} {u w : List Token}

theorem pos (h : NestedBelow depth w) : 0 < depth := by
  have := h [] (List.nil_prefix)
  simpa using this

theorem of_append_left (h : NestedBelow depth (u ++ w)) : NestedBelow depth u :=
  fun v hv => h v (hv.trans (List.prefix_append u w))

theorem of_append_right (hbalanced : openCount u = closeCount u)
    (h : NestedBelow depth (u ++ w)) : NestedBelow depth w := by
  intro v hv
  have := h (u ++ v) ((List.prefix_append_right_inj u).2 hv)
  rw [openCount_append, closeCount_append] at this
  omega

theorem append (hbalanced : openCount u = closeCount u) (hu : NestedBelow depth u)
    (hw : NestedBelow depth w) : NestedBelow depth (u ++ w) := by
  intro v hv
  rcases List.prefix_or_prefix_of_prefix hv (List.prefix_append u w) with h | ⟨v, rfl⟩
  · exact hu v h
  · have := hw v ((List.prefix_append_right_inj u).1 hv)
    rw [openCount_append, closeCount_append]
    omega

theorem append_iff (hbalanced : openCount u = closeCount u) :
    NestedBelow depth (u ++ w) ↔ NestedBelow depth u ∧ NestedBelow depth w :=
  ⟨fun h => ⟨h.of_append_left, h.of_append_right hbalanced⟩, fun h => h.1.append hbalanced h.2⟩

/-- Tokens other than parentheses are not counted. -/
theorem singleton {t : Token} (hopen : t.kind ≠ .openParen) (hdepth : 0 < depth) :
    NestedBelow depth [t] := by
  intro v hv
  rcases List.prefix_cons_iff.1 hv with rfl | ⟨v, rfl, htail⟩
  · simpa using hdepth
  · rw [List.prefix_nil.1 htail]
    simp only [openCount_cons, openCount_nil, if_neg hopen]
    omega

theorem cons_iff {t : Token} (hopen : t.kind ≠ .openParen) (hclose : t.kind ≠ .closeParen) :
    NestedBelow depth (t :: w) ↔ NestedBelow depth w := by
  have hbalanced : openCount [t] = closeCount [t] := by simp [hopen, hclose]
  constructor
  · exact of_append_right hbalanced
  · intro h
    exact append hbalanced (singleton hopen h.pos) h

/-- A pair of parentheses adds one level. -/
theorem group_iff {opening closing : Token} (hopen : opening.kind = .openParen)
    (hclose : closing.kind = .closeParen) (hbalanced : openCount w = closeCount w) :
    NestedBelow (depth + 1) (opening :: (w ++ [closing])) ↔ NestedBelow depth w := by
  constructor
  · intro h v hv
    have := h (opening :: v)
      (List.cons_prefix_cons.2 ⟨rfl, hv.trans (List.prefix_append w [closing])⟩)
    simp only [openCount_cons, closeCount_cons, hopen] at this
    simp at this
    omega
  · intro h v hv
    rcases List.prefix_cons_iff.1 hv with rfl | ⟨v, rfl, htail⟩
    · simp
    · rcases List.prefix_concat_iff.1 htail with rfl | htail
      · simp [hopen, hclose, hbalanced]
      · have := h v htail
        simp [hopen]
        omega

/-- At no place are more parentheses open than there are tokens. -/
theorem of_length_lt {ts : List Token} (h : ts.length < depth) : NestedBelow depth ts := by
  intro v hv
  have hcount : openCount v ≤ v.length := List.countP_le_length
  have hlen := hv.length_le
  omega

end NestedBelow

end Propositional
