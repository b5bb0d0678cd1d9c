import Propositional.Proofs.Formula.Printed

/-!
# Texts inside of texts

Of the tokens of a text the grammar sees the shapes only, and these are the same wherever the text stands.

* `Writes` — a text is munched into tokens of given shapes;
* `Writes.append`, `Writes.blanks`, `Writes.glyph`, `Writes.lexeme` — texts that are put together;
  `Writes.group` — and a text in parentheses;
* `exists_parse_strict_iff` — a text is parsed strictly to a formula exactly if it writes the shapes of the
  formula, and the formula is graded, has no foreign leaf and is not nested too deep.
-/

namespace Propositional

/-- A text is munched into tokens of the given shapes. -/
def Writes (text : List Char) (shapes : List (TokenKind × String)) : Prop :=
  ∃ found, Munch 0 text found ∧ found.map Token.shape = shapes

/-- Tokens that stand further on have the same shapes. -/
theorem map_shape_shift (offset : Nat) (tokens : List Token) :
    (tokens.map (Token.shift offset)).map Token.shape = tokens.map Token.shape := by
  rw [List.map_map]
  rfl

namespace Writes

variable {text rest : List Char} {shapes later : List (TokenKind × String)}

/-- A text may stand in front of another one that begins with a separator. -/
theorem append (h : Writes text shapes) (hrest : Writes rest later) (hseparated : Separated rest) :
    Writes (text ++ rest) (shapes ++ later) := by
  obtain ⟨found, hmunch, rfl⟩ := h
  obtain ⟨others, hothers, rfl⟩ := hrest
  refine ⟨_, hmunch.append hseparated (hothers.shift text.length), ?_⟩
  rw [List.map_append, map_shape_shift]

theorem blanks {blanks : List Char} (hblanks : ∀ c ∈ blanks, c = ' ' ∨ c = '\n')
    (hrest : Writes rest later) : Writes (blanks ++ rest) later := by
  obtain ⟨others, hothers, rfl⟩ := hrest
  exact ⟨_, .blanks hblanks (hothers.shift blanks.length), map_shape_shift _ _⟩

/-- Anything may stand behind a glyph. -/
theorem glyph {c : Char} {kind : TokenKind} (hglyph : Lexeme.glyph? c = some kind)
    (hname : kind ≠ .name) (hrest : Writes rest later) :
    Writes (c :: rest) ((kind, "") :: later) := by
  obtain ⟨others, hothers, rfl⟩ := hrest
  refine ⟨_, .glyph hglyph (hothers.shift 1), ?_⟩
  rw [List.map_cons, map_shape_shift, Token.shape, if_neg hname]

/-- A separator may stand behind any legal lexeme. -/
theorem lexeme {lexeme : List Char} {kind : TokenKind} (hlegal : Legal lexeme kind)
    (hname : kind ≠ .name) (hrest : Writes rest later) (hseparated : Separated rest) :
    Writes (lexeme ++ rest) ((kind, "") :: later) := by
  obtain ⟨others, hothers, rfl⟩ := hrest
  refine ⟨_, .lexeme hlegal hseparated (hothers.shift lexeme.length), ?_⟩
  rw [List.map_cons, map_shape_shift, Token.shape, if_neg hname]

/-- A text in parentheses writes a group, whatever follows. -/
theorem group {f : Formula} (h : Writes text f.shapes) (hrest : Writes rest later) :
    Writes ('(' :: (text ++ ')' :: rest)) ((Formula.group f).shapes ++ later) := by
  have hclosing : Writes (')' :: rest) ((.closeParen, "") :: later) := glyph rfl (by decide) hrest
  have hinside := h.append hclosing (separated_cons (by decide) rest)
  have hopening : Writes ('(' :: (text ++ ')' :: rest))
      ((.openParen, "") :: (f.shapes ++ (.closeParen, "") :: later)) :=
    glyph rfl (by decide) hinside
  simpa [Formula.shapes] using hopening

theorem nil : Writes [] [] := ⟨[], .done, rfl⟩

end Writes

/-- A text is parsed strictly to a formula exactly if it writes its shapes, and the formula is one that
the grammar gives, not nested too deep. -/
theorem exists_parse_strict_iff {source : String} {f : Formula} :
    (∃ tokens, lex source = .ok tokens ∧ parse tokens true = .ok f) ↔
      Writes source.toList f.shapes ∧ f.Graded ∧ f.Native ∧ f.depth ≤ nestingLimit := by
  constructor
  · rintro ⟨tokens, hlex, hparse⟩
    obtain ⟨found, hmunch, rfl⟩ := munch_of_lex hlex
    obtain ⟨hderives, hnest⟩ := derives_of_parse_strict (endMarked_append_endMark _ _) hparse
    rw [tokensAhead_append_endMark hmunch.kind_ne_endMark] at hderives hnest
    refine ⟨⟨found, hmunch, hderives.map_shape⟩, hderives.graded.1, hderives.native, ?_⟩
    exact Nat.le_of_lt_succ (hderives.nestedBelow_iff.1 (nestedWithin_iff_nestedBelow.1 hnest))
  · rintro ⟨⟨found, hmunch, hshapes⟩, hgraded, hnative, hdepth⟩
    exact ⟨_, lex_of_munch hmunch,
      parse_strict_of_graded hgraded hnative hdepth hshapes hmunch.kind_ne_endMark _⟩

end Propositional
