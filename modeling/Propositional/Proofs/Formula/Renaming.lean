import Mathlib.Data.List.Forall2
import Propositional.Proofs.Formula.Meaning
import Propositional.Proofs.Formula.Spelling
import Propositional.Proofs.Formula.Written

/-!
# Other names

* `Formula.rename` — a formula with other names; `occurrences_rename`, `native_rename`, `denote_rename` — what
  becomes of its names and of its truth value;
* `KeepsApart` — no two of some names become the same; `collected_rename` — these are collected in the
  same order;
* `Piece` — a sign or a name of a text; `written_eq_pieces` — the canonical text in pieces;
  `pieces_rename` — of these only the names change;
* `Token.rename`, `Token.Renames` — a token with another name;
* `Derives.rename`, `parse_rename` — renamed tokens write the renamed formula;
* `parse_renamed` — so of two token sequences, one renamed from the other, both are parsed or neither is.
-/

namespace Propositional

namespace Formula

/-! ### Formulas -/

/-- A formula with other names. -/
def rename (ρ : String → String) : Formula → Formula
  | var name => var (ρ name)
  | const value => const value
  | foreign typeName => foreign typeName
  | neg f => neg (f.rename ρ)
  | group f => group (f.rename ρ)
  | binary c l r => binary c (l.rename ρ) (r.rename ρ)

variable {ρ : String → String} {f : Formula}

theorem occurrences_rename (ρ : String → String) (f : Formula) :
    (f.rename ρ).occurrences = f.occurrences.map ρ := by
  induction f with
  | var name => rfl
  | const value => rfl
  | foreign typeName => rfl
  | neg f ih => exact ih
  | group f ih => exact ih
  | binary c l r ihl ihr => rw [rename, occurrences, ihl, ihr, occurrences, List.map_append]

theorem native_rename (h : f.Native) (ρ : String → String) : (f.rename ρ).Native := by
  induction f with
  | var name => trivial
  | const value => trivial
  | foreign typeName => exact h
  | neg f ih => exact ih h
  | group f ih => exact ih h
  | binary c l r ihl ihr => exact ⟨ihl h.1, ihr h.2⟩

/-- A renamed formula is true where the formula is, the valuation being taken at the other names. -/
theorem denote_rename (ρ : String → String) (valuation : String → Bool) (f : Formula) :
    (f.rename ρ).denote valuation = f.denote fun name => valuation (ρ name) := by
  induction f with
  | var name => rfl
  | const value => rfl
  | foreign typeName => rfl
  | neg f ih => rw [rename, denote, ih, denote]
  | group f ih => exact ih
  | binary c l r ihl ihr => rw [rename, denote, ihl, ihr, denote]

end Formula

/-! ### Names -/

/-- A renaming keeps some names apart: no two of them become the same name. -/
def KeepsApart (ρ : String → String) (names : List String) : Prop :=
  ∀ x ∈ names, ∀ y ∈ names, ρ x = ρ y → x = y

instance (ρ : String → String) (names : List String) : Decidable (KeepsApart ρ names) :=
  inferInstanceAs (Decidable (∀ x ∈ names, ∀ y ∈ names, ρ x = ρ y → x = y))

theorem KeepsApart.of_subset {ρ : String → String} {names part : List String} (h : KeepsApart ρ names)
    (hpart : ∀ x ∈ part, x ∈ names) : KeepsApart ρ part :=
  fun x hx y hy => h x (hpart x hx) y (hpart y hy)

theorem insertName_map {ρ : String → String} {names : List String} {name : String}
    (h : KeepsApart ρ (names ++ [name])) :
    insertName (names.map ρ) (ρ name) = (insertName names name).map ρ := by
  have hsame : (names.map ρ).contains (ρ name) = names.contains name := by
    rw [Bool.eq_iff_iff, List.contains_iff_mem, List.contains_iff_mem, List.mem_map]
    constructor
    · rintro ⟨x, hx, heq⟩
      rwa [← h x (by simp [hx]) name (by simp) heq]
    · exact fun hname => ⟨name, hname, rfl⟩
  unfold insertName
  rw [hsame]
  split
  · rfl
  · rw [List.map_append, List.map_singleton]

/-- Names that are kept apart are collected in the same order. -/
theorem foldl_insertName_map {ρ : String → String} {names occurrences : List String}
    (h : KeepsApart ρ (names ++ occurrences)) :
    (occurrences.map ρ).foldl insertName (names.map ρ) =
      (occurrences.foldl insertName names).map ρ := by
  induction occurrences generalizing names with
  | nil => rfl
  | cons name occurrences ih =>
    rw [List.append_cons] at h
    have hfirst : KeepsApart ρ (names ++ [name]) := h.of_subset fun x => List.mem_append_left _
    rw [List.map_cons, List.foldl_cons, insertName_map hfirst, ih, List.foldl_cons]
    refine h.of_subset fun x hx => ?_
    simpa [mem_insertName_iff, or_assoc] using hx

/-- A renamed formula collects the renamed names, in the same order. -/
theorem collected_rename {f : Formula} {ρ : String → String} (hapart : KeepsApart ρ f.occurrences) :
    (f.rename ρ).occurrences.foldl insertName [] = (f.occurrences.foldl insertName []).map ρ := by
  rw [Formula.occurrences_rename]
  exact @foldl_insertName_map ρ [] f.occurrences hapart

/-! ### The canonical text in pieces -/

/-- A piece of a text: a sign, or a name. -/
inductive Piece where
  | sign (c : Char)
  | name (x : String)
  deriving DecidableEq, Repr

namespace Piece

/-- The characters of a piece. -/
def text : Piece → List Char
  | sign c => [c]
  | name x => x.toList

/-- A piece with another name. -/
def rename (ρ : String → String) : Piece → Piece
  | sign c => sign c
  | name x => name (ρ x)

end Piece

namespace Formula

/-- The pieces of the canonical text of a formula. -/
def pieces : Formula → List Piece
  | var name => [.name name]
  | const value => [.sign (constGlyph value)]
  | foreign _ => []
  | neg f => .sign negationGlyph :: f.pieces
  | group f => .sign '(' :: f.pieces ++ [.sign ')']
  | binary c l r => l.pieces ++ [.sign ' ', .sign c.glyph, .sign ' '] ++ r.pieces

theorem written_eq_pieces (f : Formula) : f.written = f.pieces.flatMap Piece.text := by
  induction f with
  | var name => simp [written, pieces, Piece.text]
  | const value => rfl
  | foreign typeName => rfl
  | neg f ih => rw [written, ih]; rfl
  | group f ih => rw [written, ih, pieces, List.flatMap_append]; rfl
  | binary c l r ihl ihr =>
    rw [written, ihl, ihr, pieces, List.flatMap_append, List.flatMap_append]
    rfl

/-- The pieces of a renamed formula are the same, up to the names. -/
theorem pieces_rename (ρ : String → String) (f : Formula) :
    (f.rename ρ).pieces = f.pieces.map (Piece.rename ρ) := by
  induction f with
  | var name => rfl
  | const value => rfl
  | foreign typeName => rfl
  | neg f ih => rw [rename, pieces, ih]; rfl
  | group f ih => rw [rename, pieces, ih, pieces, List.map_append]; rfl
  | binary c l r ihl ihr =>
    rw [rename, pieces, ihl, ihr, pieces, List.map_append, List.map_append]
    rfl

end Formula

/-! ### Tokens -/

/-- A token with another name. -/
def Token.rename (ρ : String → String) (t : Token) : Token :=
  if t.kind = .name then { t with lexeme := ρ t.lexeme } else t

/-- A token has the kind of another one, and if this is a name, the other name. -/
structure Token.Renames (ρ : String → String) (t u : Token) : Prop where
  kind : u.kind = t.kind
  lexeme : t.kind = .name → u.lexeme = ρ t.lexeme

instance (ρ : String → String) (t u : Token) : Decidable (t.Renames ρ u) :=
  decidable_of_iff (u.kind = t.kind ∧ (t.kind = .name → u.lexeme = ρ t.lexeme))
    ⟨fun h => ⟨h.1, h.2⟩, fun h => ⟨h.kind, h.lexeme⟩⟩

@[simp] theorem Token.kind_rename (ρ : String → String) (t : Token) : (t.rename ρ).kind = t.kind := by
  unfold Token.rename
  split <;> rfl

theorem Token.lexeme_rename {t : Token} (h : t.kind = .name) (ρ : String → String) :
    (t.rename ρ).lexeme = ρ t.lexeme := by
  rw [Token.rename, if_pos h]

theorem Token.Renames.shape_eq {ρ : String → String} {t u : Token} (h : t.Renames ρ u) :
    (t.rename ρ).shape = u.shape := by
  by_cases hname : t.kind = .name
  · have hleft : (t.rename ρ).shape = (.name, ρ t.lexeme) :=
      Token.shape_eq_name_iff.2 ⟨(t.kind_rename ρ).trans hname, t.lexeme_rename hname ρ⟩
    have hright : u.shape = (.name, ρ t.lexeme) :=
      Token.shape_eq_name_iff.2 ⟨h.kind.trans hname, h.lexeme hname⟩
    rw [hleft, hright]
  · rw [Token.shape, Token.shape, kind_rename, h.kind, if_neg hname, if_neg hname]

theorem map_shape_rename {ρ : String → String} {tokens others : List Token}
    (h : List.Forall₂ (Token.Renames ρ) tokens others) :
    (tokens.map (Token.rename ρ)).map Token.shape = others.map Token.shape := by
  induction h with
  | nil => rfl
  | cons hfirst _ ih =>
    rw [List.map_cons, List.map_cons, List.map_cons, ih, hfirst.shape_eq]

/-- Renamed tokens write the renamed formula. -/
theorem Derives.rename {level : Level} {w : List Token} {f : Formula} (h : Derives level w f)
    (ρ : String → String) : Derives level (w.map (Token.rename ρ)) (f.rename ρ) := by
  induction h with
  | const kind => exact .const (by rw [Token.kind_rename, kind])
  | @name t kind =>
    have hname : Derives .primary [t.rename ρ] (.var (t.rename ρ).lexeme) :=
      .name (by rw [Token.kind_rename, kind])
    rwa [t.lexeme_rename kind] at hname
  | group opens _ closes ih =>
    rw [List.map_cons, List.map_append]
    exact .group (by rw [Token.kind_rename, opens]) ih (by rw [Token.kind_rename, closes])
  | primary _ ih => exact .primary ih
  | neg kind _ ih => exact .neg (by rw [Token.kind_rename, kind]) ih
  | single _ ih => exact .single ih
  | fold _ kind _ ihl ihr =>
    rw [List.map_append, List.map_cons]
    exact .fold ihl (by rw [Token.kind_rename, kind]) ihr

theorem endMarked_rename_iff {ρ : String → String} {tokens : List Token} :
    EndMarked (tokens.map (Token.rename ρ)) ↔ EndMarked tokens := by
  rw [endMarked_iff, endMarked_iff, List.map_map]
  simp [Function.comp_def]

theorem tokensAhead_rename (ρ : String → String) (tokens : List Token) :
    tokensAhead (tokens.map (Token.rename ρ)) = (tokensAhead tokens).map (Token.rename ρ) := by
  rw [tokensAhead, List.takeWhile_map, tokensAhead]
  simp [Function.comp_def, Token.isEndMark]

theorem nestedWithin_rename_iff {ρ : String → String} {limit : Nat} {w : List Token} :
    NestedWithin limit (w.map (Token.rename ρ)) ↔ NestedWithin limit w := by
  have hopen : ∀ u : List Token, openCount (u.map (Token.rename ρ)) = openCount u := by
    intro u
    simp [openCount, List.countP_map, Function.comp_def]
  have hclose : ∀ u : List Token, closeCount (u.map (Token.rename ρ)) = closeCount u := by
    intro u
    simp [closeCount, List.countP_map, Function.comp_def]
  constructor
  · intro h u hu
    have := h _ (hu.map (Token.rename ρ))
    rwa [hopen, hclose] at this
  · intro h u hu
    obtain ⟨v, hv, rfl⟩ := List.prefix_map_iff.1 hu
    rw [hopen, hclose]
    exact h v hv

theorem noConnectiveAhead_rename_iff {ρ : String → String} {rest : List Token} :
    NoConnectiveAhead (rest.map (Token.rename ρ)) ↔ NoConnectiveAhead rest := by
  simp [NoConnectiveAhead]

/-- Renamed tokens are parsed to the renamed formula. -/
theorem parse_rename {tokens : List Token} {strict : Bool} {f : Formula} (hend : EndMarked tokens)
    (ρ : String → String) (h : parse tokens strict = .ok f) :
    parse (tokens.map (Token.rename ρ)) strict = .ok (f.rename ρ) := by
  obtain ⟨u, rest, hsplit, hu, hnest, hrest, hstrict⟩ := (parse_eq_ok_iff hend).1 h
  refine (parse_eq_ok_iff (endMarked_rename_iff.2 hend)).2 ⟨u.map (Token.rename ρ),
    rest.map (Token.rename ρ), ?_, hu.rename ρ, nestedWithin_rename_iff.2 hnest,
    noConnectiveAhead_rename_iff.2 hrest, ?_⟩
  · rw [tokensAhead_rename, hsplit, List.map_append]
  · intro heq
    rw [hstrict heq, List.map_nil]

/-- Tokens that are parsed with other names are parsed. -/
theorem exists_parse_of_rename {tokens : List Token} {strict : Bool} {ρ : String → String} {g : Formula}
    (hend : EndMarked tokens) (h : parse (tokens.map (Token.rename ρ)) strict = .ok g) :
    ∃ f, parse tokens strict = .ok f := by
  obtain ⟨_, _, hrenamed, hu, hnest, hrest, hstrict⟩ :=
    (parse_eq_ok_iff (endMarked_rename_iff.2 hend)).1 h
  rw [tokensAhead_rename] at hrenamed
  obtain ⟨u, rest, hsplit, rfl, rfl⟩ := List.map_eq_append_iff.1 hrenamed
  obtain ⟨f, hf⟩ : ∃ f, Derives .loosest u f := hu.of_map_kind (by simp [Function.comp_def])
  refine ⟨f, (parse_eq_ok_iff hend).2 ⟨u, rest, hsplit, hf, nestedWithin_rename_iff.1 hnest,
    noConnectiveAhead_rename_iff.1 hrest, fun heq => List.map_eq_nil_iff.1 (hstrict heq)⟩⟩

/-- Of two token sequences, one renamed from the other, both are parsed, to formulas of which one is renamed
from the other, or neither is. -/
theorem parse_renamed {tokens others : List Token} {ρ : String → String} (hend : EndMarked tokens)
    (h : List.Forall₂ (Token.Renames ρ) tokens others) (strict : Bool) :
    (∃ f, parse tokens strict = .ok f ∧ parse others strict = .ok (f.rename ρ)) ∨
      ∃ e e', parse tokens strict = .error e ∧ parse others strict = .error e' := by
  have halike := (parse_alike (map_shape_rename h) strict).1
  cases hparse : parse tokens strict with
  | ok f =>
    rcases halike with ⟨g, hrenamed, hother⟩ | ⟨e, _, hrenamed, _⟩
    · rw [parse_rename hend ρ hparse] at hrenamed
      cases hrenamed
      exact .inl ⟨f, rfl, hother⟩
    · rw [parse_rename hend ρ hparse] at hrenamed
      cases hrenamed
  | error e =>
    rcases halike with ⟨g, hrenamed, _⟩ | ⟨_, e', _, hother, _⟩
    · obtain ⟨f, hf⟩ := exists_parse_of_rename hend hrenamed
      rw [hparse] at hf
      cases hf
    · exact .inr ⟨e, e', rfl, hother⟩

end Propositional
