import Propositional.Diagnostic
import Propositional.Text.Letter

/-!
# The lexeme at the head of a text

A text is split into lexemes from left to right.  What may stand at the head of a text is

* a glyph — one character that is a lexeme by itself (`glyph?`);
* an arrow — `->` or `<->`, which nothing else begins (`arrow?`, `readArrow`);
* a keyword — in any ASCII letter case, the longest that fits (`keyword?`);
* a name — a letter followed by ASCII digits (`readName`).

`lexemeAt` finds it.  A lexeme is given by its kind and its width; every lexeme has a width of at
least one and lies inside the text (`lexemeAt_width`).
-/

namespace Propositional

/-- A lexeme found at the head of a text. -/
structure Lexeme where
  kind : TokenKind
  width : Nat
  deriving DecidableEq, Repr

namespace Lexeme

/-- The characters that are skipped between lexemes. -/
def isSkipped (c : Char) : Bool := c = ' ' || c = '\n'

/-- The kind of a character that is a lexeme by itself.  A small `v` is a disjunction. -/
def glyph? : Char → Option TokenKind
  | '(' => some .openParen
  | ')' => some .closeParen
  | '&' => some (.connective .conj)
  | '^' => some (.connective .conj)
  | '∧' => some (.connective .conj)
  | '|' => some (.connective .disj)
  | 'v' => some (.connective .disj)
  | '∨' => some (.connective .disj)
  | '!' => some .negation
  | '~' => some .negation
  | '¬' => some .negation
  | '→' => some (.connective .imp)
  | '↔' => some (.connective .iff)
  | '⊤' => some (.const true)
  | '⊥' => some (.const false)
  | _ => none

/-- The arrow that a character begins, with its kind. -/
def arrow? : Char → Option (List Char × TokenKind)
  | '-' => some (['-', '>'], .connective .imp)
  | '<' => some (['<', '-', '>'], .connective .iff)
  | _ => none

/-- The first place where a text departs from an expected one, with the character found there. -/
def departure? : List Char → List Char → Option (Nat × Char)
  | e :: expected, c :: text =>
      if c = e then (departure? expected text).map fun place => (place.1 + 1, place.2)
      else some (0, c)
  | _, _ => none

/-- Read an arrow.  That the text is too short is noticed before any character is compared. -/
def readArrow (arrow : List Char) (kind : TokenKind) (text : List Char) :
    Except LexError Lexeme :=
  if (text.take arrow.length).length < arrow.length then
    .error ⟨.unfinished (String.ofList arrow), 0⟩
  else
    match departure? arrow text with
    | some (offset, found) => .error ⟨.mismatch found (String.ofList arrow), offset⟩
    | none => .ok ⟨kind, arrow.length⟩

/-- The keywords in lower case; of two that begin alike the longer comes first. -/
def keywords : List (List Char × TokenKind) :=
  [(['a', 'n', 'd'], .connective .conj), (['o', 'r'], .connective .disj),
    (['n', 'o', 't'], .negation), (['i', 'f', 'f'], .connective .iff),
    (['i', 'f'], .connective .imp), (['t', 'r', 'u', 'e'], .const true),
    (['f', 'a', 'l', 's', 'e'], .const false)]

/-- Does a text begin with a word, whatever the case of its ASCII letters? -/
def beginsWith (word text : List Char) : Bool := (text.take word.length).map Char.toLower == word

/-- The keyword at the head of a text. -/
def keyword? (text : List Char) : Option Lexeme :=
  (keywords.find? fun entry => beginsWith entry.1 text).map
    fun entry => ⟨entry.2, entry.1.length⟩

/-- Does a keyword begin with this letter, in either case? -/
def beginsKeyword (c : Char) : Bool :=
  keywords.any fun entry => entry.1.head? == some c.toLower

/-- Read a name: a letter and the ASCII digits after it. -/
def readName (c : Char) (rest : List Char) : Except LexError Lexeme :=
  if Text.isLetter c then .ok ⟨.name, 1 + (rest.takeWhile Char.isDigit).length⟩
  else .error ⟨.notLetter c, 0⟩

/-- Read a keyword, or else a name. -/
def readWord (c : Char) (rest : List Char) : Except LexError Lexeme :=
  match keyword? (c :: rest) with
  | some lexeme => .ok lexeme
  | none => readName c rest

end Lexeme

/-- The lexeme at the head of a text whose first character is not skipped. -/
def lexemeAt (c : Char) (rest : List Char) : Except LexError Lexeme :=
  match Lexeme.glyph? c with
  | some kind => .ok ⟨kind, 1⟩
  | none =>
    match Lexeme.arrow? c with
    | some (arrow, kind) => Lexeme.readArrow arrow kind (c :: rest)
    | none => Lexeme.readWord c rest

/-! ### A lexeme is not empty and lies inside the text -/

namespace Lexeme

theorem readArrow_width {arrow text : List Char} {kind : TokenKind} {lexeme : Lexeme}
    (h : readArrow arrow kind text = .ok lexeme) :
    lexeme.width = arrow.length ∧ lexeme.width ≤ text.length := by
  unfold readArrow at h
  split at h
  · cases h
  · rename_i hlong
    split at h
    · cases h
    · cases h
      simp only [List.length_take] at hlong
      refine ⟨rfl, ?_⟩
      show arrow.length ≤ text.length
      omega

theorem arrow?_length {c : Char} {arrow : List Char} {kind : TokenKind}
    (h : arrow? c = some (arrow, kind)) : 1 ≤ arrow.length := by
  unfold arrow? at h
  split at h <;> cases h <;> decide

theorem keyword?_width {text : List Char} {lexeme : Lexeme} (h : keyword? text = some lexeme) :
    1 ≤ lexeme.width ∧ lexeme.width ≤ text.length := by
  obtain ⟨entry, hfind, rfl⟩ := Option.map_eq_some_iff.1 h
  have hmem := List.mem_of_find?_eq_some hfind
  have hfits := List.find?_some hfind
  have hpos : ∀ e ∈ keywords, 1 ≤ e.1.length := by decide
  have hlen := congrArg List.length (eq_of_beq hfits)
  simp only [List.length_map, List.length_take] at hlen
  refine ⟨hpos entry hmem, ?_⟩
  show entry.1.length ≤ text.length
  omega

theorem readName_width {c : Char} {rest : List Char} {lexeme : Lexeme}
    (h : readName c rest = .ok lexeme) :
    1 ≤ lexeme.width ∧ lexeme.width ≤ (c :: rest).length := by
  unfold readName at h
  split at h
  · cases h
    have := (List.takeWhile_prefix (l := rest) Char.isDigit).length_le
    simp only [List.length_cons]
    omega
  · cases h

end Lexeme

theorem lexemeAt_width {c : Char} {rest : List Char} {lexeme : Lexeme}
    (h : lexemeAt c rest = .ok lexeme) :
    1 ≤ lexeme.width ∧ lexeme.width ≤ (c :: rest).length := by
  unfold lexemeAt at h
  split at h
  · cases h
    exact ⟨Nat.le_refl 1, by simp⟩
  · split at h
    · rename_i harrow
      have hwidth := Lexeme.readArrow_width h
      exact ⟨by rw [hwidth.1]; exact Lexeme.arrow?_length harrow, hwidth.2⟩
    · unfold Lexeme.readWord at h
      split at h
      · rename_i hkeyword
        cases h
        exact Lexeme.keyword?_width hkeyword
      · exact Lexeme.readName_width h

end Propositional
