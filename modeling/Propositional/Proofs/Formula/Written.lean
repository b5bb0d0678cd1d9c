import Propositional.Formula.Label
import Propositional.Proofs.Formula.Meaning
import Propositional.Proofs.Token.Joining

/-!
# The canonical text of a formula and its tokens

* `label_eq_fold`, `label_eq_match`, `label_eq_written` — the walk gives the text that `Formula.written`
  defines by recursion, unless a leaf is foreign;
* `Munch.glyph`, `longestAt_of_isName` — the lexemes of a canonical text are the longest where they
  stand: a glyph always, a name in front of a blank, a closing parenthesis or the end;
* `exists_munch_written` — a canonical text whose names are names is munched, into tokens with the
  shapes of the formula;
* `lex_written` — so it has tokens.
-/

namespace Propositional

theorem label_eq_fold (f : Formula) : f.label = labelAlgebra.fold f :=
  Algebra.run_eq_fold labelAlgebra f

/-- The text is the one that `Formula.written` defines by recursion, unless a leaf is foreign; then the leftmost
such leaf is reported. -/
theorem label_eq_match (f : Formula) :
    f.label =
      match f.leaves.findSome? Formula.stranger? with
      | none => .ok (String.ofList f.written)
      | some e => .error e := by
  rw [label_eq_fold]
  induction f with
  | var name => simp [Algebra.fold, labelAlgebra, Formula.written, Formula.leaves, Formula.stranger?]
  | const value => simp [Algebra.fold, labelAlgebra, Formula.written, Formula.leaves, Formula.stranger?]
  | foreign typeName => rfl
  | neg f ih =>
    rw [Algebra.fold, ih, Formula.leaves]
    cases f.leaves.findSome? Formula.stranger? <;>
      simp [Except.map, labelAlgebra, Formula.written]
  | group f ih =>
    rw [Algebra.fold, ih, Formula.leaves]
    cases f.leaves.findSome? Formula.stranger? <;>
      simp [Except.map, labelAlgebra, Formula.written, ← String.toList_inj]
  | binary c l r ihl ihr =>
    -- an error on the left comes first
    rw [Algebra.fold, ihl, ihr, Formula.leaves, List.findSome?_append]
    cases l.leaves.findSome? Formula.stranger? with
    | some e => rfl
    | none =>
      cases r.leaves.findSome? Formula.stranger? <;>
        simp [bind, Except.bind, pure, Except.pure, labelAlgebra, Formula.written,
          ← String.toList_inj]

/-- The text of a formula without foreign leaves. -/
theorem label_eq_written {f : Formula} (h : f.Native) :
    f.label = .ok (String.ofList f.written) := by
  rw [label_eq_match, h.findSome?_stranger?]

/-! ### Lexemes of a canonical text -/

/-- A glyph is always the longest lexeme. -/
theorem Munch.glyph {start : Nat} {c : Char} {kind : TokenKind} {rest : List Char}
    {tokens : List Token} (h : Lexeme.glyph? c = some kind) (later : Munch (start + 1) rest tokens) :
    Munch start (c :: rest) (⟨kind, String.singleton c, start⟩ :: tokens) := by
  have hstep : Munch start ([c] ++ rest) (⟨kind, String.ofList [c], start⟩ :: tokens) :=
    .take (Lexeme.longestAt_of_glyph h) later
  rwa [← String.singleton_eq_ofList] at hstep

/-- What may follow a name in a canonical text: the end, a blank or a closing parenthesis. -/
def EndsName (rest : List Char) : Prop := ∀ c ∈ rest.head?, c = ' ' ∨ c = ')'

theorem EndsName.separated {rest : List Char} (h : EndsName rest) : Separated rest := by
  intro c hc
  rcases h c hc with rfl | rfl <;> decide

/-- In front of what ends a name, it is the longest lexeme. -/
theorem longestAt_of_isName {name rest : List Char} (h : IsName name) (hrest : EndsName rest) :
    LongestAt (name ++ rest) name .name :=
  (Legal.name h).longestAt hrest.separated

/-- A canonical text whose names are names is munched, in front of what ends a name, into tokens with
the shapes of the formula. -/
theorem exists_munch_written {f : Formula} (hnative : f.Native)
    (hnames : ∀ name ∈ f.occurrences, IsName name.toList) {start : Nat} {rest : List Char}
    {tokens : List Token} (hrest : EndsName rest)
    (later : Munch (start + f.written.length) rest tokens) :
    ∃ found, Munch start (f.written ++ rest) (found ++ tokens) ∧
      found.map Token.shape = f.shapes := by
  induction f generalizing start rest tokens with
  | var name =>
    have hname : IsName name.toList := hnames name (List.mem_singleton_self name)
    refine ⟨[⟨.name, String.ofList name.toList, start⟩], ?_, ?_⟩
    · exact .take (longestAt_of_isName hname hrest) later
    · simp [Token.shape, Formula.shapes]
  | const value =>
    refine ⟨[⟨.const value, String.singleton (constGlyph value), start⟩], ?_, rfl⟩
    exact .glyph (by cases value <;> rfl) later
  | foreign typeName => exact hnative.elim
  | neg f ih =>
    have hlater : Munch (start + 1 + f.written.length) rest tokens := by
      have hlen : start + (Formula.neg f).written.length = start + 1 + f.written.length := by
        simp only [Formula.written, List.length_cons]
        omega
      rwa [← hlen]
    obtain ⟨found, hmunch, hshape⟩ := ih hnative hnames hrest hlater
    refine ⟨⟨.negation, String.singleton negationGlyph, start⟩ :: found, ?_, ?_⟩
    · exact .glyph rfl hmunch
    · rw [List.map_cons, hshape]
      rfl
  | group f ih =>
    have hclosing : Munch (start + 1 + f.written.length) (')' :: rest)
        (⟨.closeParen, String.singleton ')', (start + 1 + f.written.length : Nat)⟩ :: tokens) := by
      refine .glyph rfl ?_
      have hlen : start + (Formula.group f).written.length = start + 1 + f.written.length + 1 := by
        simp only [Formula.written, List.length_cons, List.length_append, List.length_nil]
        omega
      rwa [← hlen]
    have hends : EndsName (')' :: rest) := by
      intro c hc
      cases hc
      exact .inr rfl
    obtain ⟨found, hmunch, hshape⟩ := ih hnative hnames hends hclosing
    refine ⟨⟨.openParen, String.singleton '(', start⟩ :: (found ++
      [⟨.closeParen, String.singleton ')', (start + 1 + f.written.length : Nat)⟩]), ?_, ?_⟩
    · have hopening : Munch start ('(' :: (f.written ++ ')' :: rest)) _ := .glyph rfl hmunch
      simpa [Formula.written] using hopening
    · rw [List.map_cons, List.map_append, hshape]
      rfl
  | binary c l r ihl ihr =>
    have hlater : Munch (start + l.written.length + 1 + 1 + 1 + r.written.length) rest tokens := by
      have hlen : start + (Formula.binary c l r).written.length =
          start + l.written.length + 1 + 1 + 1 + r.written.length := by
        simp only [Formula.written, List.length_cons, List.length_append, List.length_nil]
        omega
      rwa [← hlen]
    obtain ⟨right, hright, hrightShape⟩ := ihr hnative.2
      (fun name hname => hnames name (List.mem_append_right _ hname)) hrest hlater
    have hsign : Munch (start + l.written.length) (' ' :: c.glyph :: ' ' :: (r.written ++ rest))
        (⟨.connective c, String.singleton c.glyph, (start + l.written.length + 1 : Nat)⟩ ::
          (right ++ tokens)) :=
      .skip (.inl rfl) (.glyph (by cases c <;> rfl) (.skip (.inl rfl) hright))
    have hends : EndsName (' ' :: c.glyph :: ' ' :: (r.written ++ rest)) := by
      intro d hd
      cases hd
      exact .inl rfl
    obtain ⟨left, hleft, hleftShape⟩ := ihl hnative.1
      (fun name hname => hnames name (List.mem_append_left _ hname)) hends hsign
    refine ⟨left ++
      ⟨.connective c, String.singleton c.glyph, (start + l.written.length + 1 : Nat)⟩ :: right,
      ?_, ?_⟩
    · simpa [Formula.written] using hleft
    · rw [List.map_append, List.map_cons, hleftShape, hrightShape]
      rfl

/-- A canonical text whose names are names has tokens, with the shapes of the formula. -/
theorem lex_written {f : Formula} (hnative : f.Native)
    (hnames : ∀ name ∈ f.occurrences, IsName name.toList) :
    ∃ found, lex (String.ofList f.written) =
        .ok (found ++ [Token.endMark (String.ofList f.written).length]) ∧
      (∀ t ∈ found, t.kind ≠ .endMark) ∧ found.map Token.shape = f.shapes := by
  have hends : EndsName [] := by intro c hc; cases hc
  have hmunched : ∃ found, Munch 0 (f.written ++ []) (found ++ []) ∧
      found.map Token.shape = f.shapes := exists_munch_written hnative hnames hends .done
  obtain ⟨found, hmunch, hshape⟩ := hmunched
  rw [List.append_nil, List.append_nil] at hmunch
  refine ⟨found, lex_of_munch ?_, hmunch.kind_ne_endMark, hshape⟩
  rwa [String.toList_ofList]

end Propositional
