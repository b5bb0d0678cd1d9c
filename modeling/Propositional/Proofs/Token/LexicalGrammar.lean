import Propositional.Token.Lexeme

/-!
# The lexical grammar

What may be written as one lexeme is declared here by three tables, without any order of trial:

* `signs` — the lexemes with one spelling each;
* `words` — the keywords, legal in any ASCII letter case;
* `IsName` — a letter other than a small `v`, and ASCII digits behind it;
* `Legal` — a legal lexeme with its kind; `LongestAt` — the longest one at the head of a text.

`lexemeAt` never compares lengths: it looks at the first character, tries the keywords in the order of
their list and falls back to a name.  The main statements say that it finds the longest legal lexeme
all the same:

* `lexemeAt_cases` — the ways in which it finds a lexeme or fails;
* `lexemeAt_eq_ok_iff` — it finds a lexeme exactly if that is the longest at the head of the text;
* `not_legal_of_lexemeAt_error` — it fails only where no legal lexeme begins;
* `LongestAt.unique` — there is at most one longest lexeme, and it has one kind.
-/

namespace Propositional

/-! ### The declared tables -/

/-- The lexemes that have one spelling. -/
def signs : List (String × TokenKind) :=
  [("(", .openParen), (")", .closeParen),
    ("&", .connective .conj), ("^", .connective .conj), ("∧", .connective .conj),
    ("|", .connective .disj), ("v", .connective .disj), ("∨", .connective .disj),
    ("!", .negation), ("~", .negation), ("¬", .negation),
    ("->", .connective .imp), ("→", .connective .imp),
    ("<->", .connective .iff), ("↔", .connective .iff),
    ("⊤", .const true), ("⊥", .const false)]

/-- The keywords, in lower case. -/
def words : List (String × TokenKind) :=
  [("and", .connective .conj), ("or", .connective .disj), ("not", .negation),
    ("if", .connective .imp), ("iff", .connective .iff),
    ("true", .const true), ("false", .const false)]

/-- A name is a letter other than a small `v`, and any number of ASCII digits behind it. -/
def IsName : List Char → Prop
  | [] => False
  | c :: digits => Text.isLetter c = true ∧ c ≠ 'v' ∧ ∀ d ∈ digits, d.isDigit = true

instance : DecidablePred IsName
  | [] => inferInstanceAs (Decidable False)
  | c :: digits => inferInstanceAs
      (Decidable (Text.isLetter c = true ∧ c ≠ 'v' ∧ ∀ d ∈ digits, d.isDigit = true))

/-- The legal lexemes, each with its kind. -/
inductive Legal (lexeme : List Char) : TokenKind → Prop
  | sign (spelling : String) {kind : TokenKind} (declared : (spelling, kind) ∈ signs)
      (written : lexeme = spelling.toList) : Legal lexeme kind
  | word (spelling : String) {kind : TokenKind} (declared : (spelling, kind) ∈ words)
      (written : lexeme.map Char.toLower = spelling.toList) : Legal lexeme kind
  | name (written : IsName lexeme) : Legal lexeme .name

/-- A legal lexeme stands at the head of a text, and no longer one does. -/
structure LongestAt (text lexeme : List Char) (kind : TokenKind) : Prop where
  legal : Legal lexeme kind
  atHead : lexeme <+: text
  longest : ∀ {other : List Char} {otherKind : TokenKind},
    Legal other otherKind → other <+: text → other.length ≤ lexeme.length

/-! ### First characters

The three tables share no first character, but for the letters, with which keywords and names
begin. -/

namespace Lexeme

theorem not_beginsKeyword_of_glyph {c : Char} {kind : TokenKind} (h : glyph? c = some kind) :
    beginsKeyword c = false := by
  unfold glyph? at h
  split at h <;> first | rfl | cases h

theorem not_beginsKeyword_of_arrow {c : Char} {arrow : List Char × TokenKind}
    (h : arrow? c = some arrow) : beginsKeyword c = false := by
  unfold arrow? at h
  split at h <;> first | rfl | cases h

theorem not_isLetter_of_glyph {c : Char} {kind : TokenKind} (h : glyph? c = some kind) :
    c = 'v' ∨ Text.isLetter c = false := by
  unfold glyph? at h
  split at h <;> first | decide | cases h

theorem not_isLetter_of_arrow {c : Char} {arrow : List Char × TokenKind}
    (h : arrow? c = some arrow) : Text.isLetter c = false := by
  unfold arrow? at h
  split at h <;> first | decide | cases h

/-- A letter is no glyph, but for the small `v`. -/
theorem glyph?_eq_none_of_isLetter {c : Char} (h : Text.isLetter c = true) (hv : c ≠ 'v') :
    glyph? c = none := by
  cases hglyph : glyph? c with
  | none => rfl
  | some kind =>
    rcases not_isLetter_of_glyph hglyph with hc | hc
    · exact absurd hc hv
    · rw [h] at hc
      cases hc

theorem arrow?_eq_none_of_isLetter {c : Char} (h : Text.isLetter c = true) : arrow? c = none := by
  cases harrow : arrow? c with
  | none => rfl
  | some arrow =>
    rw [not_isLetter_of_arrow harrow] at h
    cases h

/-- A declared sign is a glyph, or else an arrow. -/
theorem glyph_or_arrow_of_sign {spelling : String} {kind : TokenKind}
    (hmem : (spelling, kind) ∈ signs) {c : Char} {cs : List Char}
    (h : spelling.toList = c :: cs) :
    (glyph? c = some kind ∧ cs = []) ∨ (glyph? c = none ∧ arrow? c = some (c :: cs, kind)) := by
  have hall : ∀ sign ∈ signs,
      (glyph? (sign.1.toList.headD ' ') = some sign.2 ∧ sign.1.toList.tail = []) ∨
        (glyph? (sign.1.toList.headD ' ') = none ∧
          arrow? (sign.1.toList.headD ' ') = some (sign.1.toList, sign.2)) := by decide
  have hsign := hall _ hmem
  rwa [h] at hsign

theorem mem_signs_of_glyph {c : Char} {kind : TokenKind} (h : glyph? c = some kind) :
    (String.singleton c, kind) ∈ signs := by
  unfold glyph? at h
  split at h <;> first | cases h; decide | cases h

theorem mem_signs_of_arrow {c : Char} {arrow : List Char} {kind : TokenKind}
    (h : arrow? c = some (arrow, kind)) : (String.ofList arrow, kind) ∈ signs := by
  unfold arrow? at h
  split at h <;> cases h <;> decide

/-- Both tables of keywords have the same entries. -/
theorem mem_keywords_iff (lexeme : List Char) (kind : TokenKind) :
    (lexeme, kind) ∈ keywords ↔ ∃ word ∈ words, word.1.toList = lexeme ∧ word.2 = kind := by
  constructor
  · intro hmem
    have hall : ∀ entry ∈ keywords, ∃ word ∈ words, word.1.toList = entry.1 ∧ word.2 = entry.2 := by
      decide
    exact hall _ hmem
  · rintro ⟨word, hmem, rfl, rfl⟩
    have hall : ∀ word ∈ words, (word.1.toList, word.2) ∈ keywords := by decide
    exact hall _ hmem

end Lexeme

/-! ### Legal lexemes by their first character -/

namespace Legal

theorem ne_nil {lexeme : List Char} {kind : TokenKind} (h : Legal lexeme kind) : lexeme ≠ [] := by
  rintro rfl
  cases h with
  | sign spelling declared written =>
    have hall : ∀ sign ∈ signs, sign.1.toList ≠ [] := by decide
    exact hall _ declared written.symm
  | word spelling declared written =>
    have hall : ∀ word ∈ words, word.1.toList ≠ [] := by decide
    exact hall _ declared written.symm
  | name written => exact written

/-- A keyword begins with a letter that keywords begin with. -/
theorem beginsKeyword_of_word {spelling : String} {kind : TokenKind}
    (declared : (spelling, kind) ∈ words) {c : Char} {cs : List Char}
    (written : (c :: cs).map Char.toLower = spelling.toList) : Lexeme.beginsKeyword c = true := by
  have hmem := (Lexeme.mem_keywords_iff spelling.toList kind).2 ⟨_, declared, rfl, rfl⟩
  rw [Lexeme.beginsKeyword, List.any_eq_true]
  refine ⟨_, hmem, ?_⟩
  rw [← written]
  simp

theorem of_glyph {c : Char} {cs : List Char} {glyph kind : TokenKind}
    (hglyph : Lexeme.glyph? c = some glyph) (h : Legal (c :: cs) kind) :
    cs = [] ∧ kind = glyph := by
  cases h with
  | sign spelling declared written =>
    rcases Lexeme.glyph_or_arrow_of_sign declared written.symm with ⟨hg, hcs⟩ | ⟨hg, _⟩
    · rw [hglyph] at hg
      exact ⟨hcs, (Option.some.inj hg).symm⟩
    · rw [hglyph] at hg
      cases hg
  | word spelling declared written =>
    have hbegins := beginsKeyword_of_word declared written
    rw [Lexeme.not_beginsKeyword_of_glyph hglyph] at hbegins
    cases hbegins
  | name written =>
    obtain ⟨hletter, hv, _⟩ := written
    rw [Lexeme.glyph?_eq_none_of_isLetter hletter hv] at hglyph
    cases hglyph

theorem of_arrow {c : Char} {cs arrow : List Char} {arrowKind kind : TokenKind}
    (hglyph : Lexeme.glyph? c = none) (harrow : Lexeme.arrow? c = some (arrow, arrowKind))
    (h : Legal (c :: cs) kind) : c :: cs = arrow ∧ kind = arrowKind := by
  cases h with
  | sign spelling declared written =>
    rcases Lexeme.glyph_or_arrow_of_sign declared written.symm with ⟨hg, _⟩ | ⟨_, ha⟩
    · rw [hglyph] at hg
      cases hg
    · rw [harrow] at ha
      cases ha
      exact ⟨rfl, rfl⟩
  | word spelling declared written =>
    have hbegins := beginsKeyword_of_word declared written
    rw [Lexeme.not_beginsKeyword_of_arrow harrow] at hbegins
    cases hbegins
  | name written =>
    obtain ⟨hletter, _, _⟩ := written
    rw [Lexeme.arrow?_eq_none_of_isLetter hletter] at harrow
    cases harrow

/-- What begins with neither a glyph nor an arrow is a keyword or a name. -/
theorem of_letter {c : Char} {cs : List Char} {kind : TokenKind}
    (hglyph : Lexeme.glyph? c = none) (harrow : Lexeme.arrow? c = none)
    (h : Legal (c :: cs) kind) :
    ((c :: cs).map Char.toLower, kind) ∈ Lexeme.keywords ∨ (kind = .name ∧ IsName (c :: cs)) := by
  cases h with
  | sign spelling declared written =>
    rcases Lexeme.glyph_or_arrow_of_sign declared written.symm with ⟨hg, _⟩ | ⟨_, ha⟩
    · rw [hglyph] at hg
      cases hg
    · rw [harrow] at ha
      cases ha
  | word spelling declared written =>
    exact .inl ((Lexeme.mem_keywords_iff _ _).2 ⟨_, declared, written.symm, rfl⟩)
  | name written => exact .inr ⟨rfl, written⟩

end Legal

/-! ### What the parts of `lexemeAt` find -/

namespace Lexeme

theorem departure?_eq_none_iff {expected text : List Char}
    (h : expected.length ≤ text.length) :
    departure? expected text = none ↔ expected <+: text := by
  induction expected generalizing text with
  | nil => simp [departure?]
  | cons e expected ih =>
    cases text with
    | nil => simp at h
    | cons c text =>
      have hlen : expected.length ≤ text.length := by simpa using h
      by_cases hc : c = e
      · subst hc
        simp [departure?, ih hlen]
      · have hne : ¬ e = c := fun he => hc he.symm
        simp [departure?, hc, hne]

/-- An arrow is read exactly where it stands in full. -/
theorem readArrow_eq_ok_iff {arrow text : List Char} {kind : TokenKind} {lexeme : Lexeme} :
    readArrow arrow kind text = .ok lexeme ↔ arrow <+: text ∧ lexeme = ⟨kind, arrow.length⟩ := by
  unfold readArrow
  by_cases hshort : (text.take arrow.length).length < arrow.length
  · rw [if_pos hshort]
    rw [List.length_take] at hshort
    constructor
    · intro h
      cases h
    · rintro ⟨hhead, _⟩
      have := hhead.length_le
      omega
  · rw [if_neg hshort]
    rw [List.length_take] at hshort
    rw [← departure?_eq_none_iff (by omega)]
    cases departure? arrow text with
    | none => simp [eq_comm]
    | some place => simp

theorem beginsWith_iff {word text : List Char} :
    beginsWith word text = true ↔
      ∃ lexeme, lexeme <+: text ∧ lexeme.map Char.toLower = word := by
  constructor
  · intro h
    exact ⟨text.take word.length, List.take_prefix _ _, eq_of_beq h⟩
  · rintro ⟨lexeme, hhead, rfl⟩
    rw [beginsWith, List.length_map, ← List.prefix_iff_eq_take.1 hhead]
    simp

/-- Of two words that a text begins with, the shorter begins the longer. -/
theorem prefix_of_beginsWith {word longer text : List Char} (hword : beginsWith word text = true)
    (hlonger : beginsWith longer text = true) (hlen : word.length ≤ longer.length) :
    word <+: longer := by
  have htake : text.take word.length <+: text.take longer.length :=
    List.take_prefix_take_left hlen
  have h := htake.map Char.toLower
  rwa [eq_of_beq hword, eq_of_beq hlonger] at h

/-- The keyword found is the longest that fits, since in the list none stands in front of a longer
one that it begins. -/
theorem exists_of_keyword?_eq_some {text : List Char} {lexeme : Lexeme}
    (h : keyword? text = some lexeme) :
    ∃ entry ∈ keywords, beginsWith entry.1 text = true ∧ lexeme = ⟨entry.2, entry.1.length⟩ ∧
      ∀ other ∈ keywords, beginsWith other.1 text = true → other.1.length ≤ entry.1.length := by
  obtain ⟨entry, hfind, rfl⟩ := Option.map_eq_some_iff.1 h
  obtain ⟨hfits, before, after, hsplit, hbefore⟩ := List.find?_eq_some_iff_append.1 hfind
  refine ⟨entry, List.mem_of_find?_eq_some hfind, hfits, rfl, fun other hmem hother => ?_⟩
  have hordered : keywords.Pairwise fun earlier later => ¬ earlier.1 <+: later.1 := by decide
  rw [hsplit] at hmem hordered
  rcases List.mem_append.1 hmem with hmem | hmem
  · have := hbefore other hmem
    rw [hother] at this
    cases this
  · rcases List.mem_cons.1 hmem with rfl | hmem
    · exact Nat.le_refl _
    · have hnot := (List.pairwise_cons.1 (List.pairwise_append.1 hordered).2.1).1 other hmem
      rcases Nat.le_total other.1.length entry.1.length with hle | hle
      · exact hle
      · exact absurd (prefix_of_beginsWith hfits hother hle) hnot

theorem not_beginsWith_of_keyword?_eq_none {text : List Char} (h : keyword? text = none)
    {entry : List Char × TokenKind} (hmem : entry ∈ keywords) :
    beginsWith entry.1 text = false := by
  have hfind := Option.map_eq_none_iff.1 h
  exact Bool.eq_false_iff.2 (List.find?_eq_none.1 hfind entry hmem)

theorem toLower_of_isDigit {d : Char} (h : d.isDigit = true) : d.toLower = d := by
  have hnot : ¬ (d.val ≥ 'A'.val ∧ d.val ≤ 'Z'.val) := by
    simp only [Char.isDigit] at h
    grind
  exact dif_neg hnot

/-- Where a keyword stands, no name has digits: the second character of a keyword is none. -/
theorem name_length_le_one {text other : List Char} {entry : List Char × TokenKind}
    (hmem : entry ∈ keywords) (hbegins : beginsWith entry.1 text = true) (hname : IsName other)
    (hother : other <+: text) : other.length ≤ 1 := by
  match other, hname with
  | [_], _ => exact Nat.le_refl 1
  | c :: d :: digits, ⟨_, _, hdigits⟩ =>
    have hdigit : d.isDigit = true := hdigits d List.mem_cons_self
    obtain ⟨rest, rfl⟩ := hother
    have hsecond : ∀ e ∈ keywords, 2 ≤ e.1.length ∧ e.1[1]?.any Char.isDigit = false := by decide
    obtain ⟨hlen, hb⟩ := hsecond entry hmem
    have hword : entry.1[1]? = some d.toLower := by
      rw [← eq_of_beq hbegins]
      simp [show 1 < entry.1.length by omega]
    rw [hword, toLower_of_isDigit hdigit, Option.any_some, hdigit] at hb
    cases hb

end Lexeme

/-! ### The longest legal lexeme -/

/-- Of a name and a keyword with the same spelling there is none. -/
theorem not_isName_of_keyword {lexeme : List Char} {kind : TokenKind}
    (h : (lexeme.map Char.toLower, kind) ∈ Lexeme.keywords) : ¬ IsName lexeme := by
  intro hname
  have hself : Lexeme.beginsWith (lexeme.map Char.toLower) lexeme = true :=
    Lexeme.beginsWith_iff.2 ⟨lexeme, List.prefix_refl lexeme, rfl⟩
  have hone := Lexeme.name_length_le_one h hself hname (List.prefix_refl lexeme)
  have hlong : ∀ e ∈ Lexeme.keywords, 2 ≤ e.1.length := by decide
  have htwo := hlong _ h
  simp only [List.length_map] at htwo
  omega

/-- A legal lexeme has one kind. -/
theorem Legal.kind_unique {lexeme : List Char} {kind otherKind : TokenKind}
    (h : Legal lexeme kind) (hother : Legal lexeme otherKind) : kind = otherKind := by
  obtain ⟨c, cs, rfl⟩ := List.exists_cons_of_ne_nil h.ne_nil
  cases hglyph : Lexeme.glyph? c with
  | some glyph => rw [(h.of_glyph hglyph).2, (hother.of_glyph hglyph).2]
  | none =>
    cases harrow : Lexeme.arrow? c with
    | some arrow => rw [(h.of_arrow hglyph harrow).2, (hother.of_arrow hglyph harrow).2]
    | none =>
      rcases h.of_letter hglyph harrow with hword | ⟨rfl, hname⟩ <;>
        rcases hother.of_letter hglyph harrow with hword' | ⟨rfl, hname'⟩
      · have hfunctional : ∀ e ∈ Lexeme.keywords, ∀ e' ∈ Lexeme.keywords,
            e.1 = e'.1 → e.2 = e'.2 := by decide
        exact hfunctional _ hword _ hword' rfl
      · exact absurd hname' (not_isName_of_keyword hword)
      · exact absurd hname (not_isName_of_keyword hword')
      · rfl

theorem LongestAt.unique {text lexeme other : List Char} {kind otherKind : TokenKind}
    (h : LongestAt text lexeme kind) (hother : LongestAt text other otherKind) :
    lexeme = other ∧ kind = otherKind := by
  have hlen : lexeme.length = other.length :=
    Nat.le_antisymm (hother.longest h.legal h.atHead) (h.longest hother.legal hother.atHead)
  have heq : lexeme = other := by
    rw [List.prefix_iff_eq_take.1 h.atHead, List.prefix_iff_eq_take.1 hother.atHead, hlen]
  subst heq
  exact ⟨rfl, h.legal.kind_unique hother.legal⟩

namespace Lexeme

theorem longestAt_of_glyph {c : Char} {rest : List Char} {kind : TokenKind}
    (h : glyph? c = some kind) : LongestAt (c :: rest) [c] kind where
  legal := .sign (String.singleton c) (mem_signs_of_glyph h) (by simp)
  atHead := List.prefix_append [c] rest
  longest := by
    intro other otherKind hlegal hhead
    obtain ⟨d, ds, rfl⟩ := List.exists_cons_of_ne_nil hlegal.ne_nil
    obtain ⟨rfl, _⟩ := List.cons_prefix_cons.1 hhead
    obtain ⟨rfl, _⟩ := hlegal.of_glyph h
    exact Nat.le_refl 1

theorem longestAt_of_arrow {c : Char} {rest arrow : List Char} {kind : TokenKind}
    (hglyph : glyph? c = none) (harrow : arrow? c = some (arrow, kind))
    (h : arrow <+: c :: rest) : LongestAt (c :: rest) arrow kind where
  legal := .sign (String.ofList arrow) (mem_signs_of_arrow harrow) (by simp)
  atHead := h
  longest := by
    intro other otherKind hlegal hhead
    obtain ⟨d, ds, rfl⟩ := List.exists_cons_of_ne_nil hlegal.ne_nil
    obtain ⟨rfl, _⟩ := List.cons_prefix_cons.1 hhead
    exact Nat.le_of_eq (congrArg List.length (hlegal.of_arrow hglyph harrow).1)

theorem longestAt_of_keyword {c : Char} {rest : List Char} {lexeme : Lexeme}
    (hglyph : glyph? c = none) (harrow : arrow? c = none)
    (h : keyword? (c :: rest) = some lexeme) :
    LongestAt (c :: rest) ((c :: rest).take lexeme.width) lexeme.kind := by
  obtain ⟨entry, hmem, hbegins, rfl, hlongest⟩ := exists_of_keyword?_eq_some h
  obtain ⟨written, hhead, hlower⟩ := beginsWith_iff.1 hbegins
  have hlen : written.length = entry.1.length := by rw [← hlower, List.length_map]
  have htake : (c :: rest).take entry.1.length = written := by
    rw [← hlen]
    exact (List.prefix_iff_eq_take.1 hhead).symm
  show LongestAt (c :: rest) ((c :: rest).take entry.1.length) entry.2
  rw [htake]
  refine ⟨?_, hhead, fun {other otherKind} hlegal hother => ?_⟩
  · obtain ⟨⟨spelling, kind⟩, hword, hspelling, hkind⟩ := (mem_keywords_iff _ _).1 hmem
    rw [← hkind]
    exact .word spelling hword (by rw [hlower, hspelling])
  · rw [hlen]
    obtain ⟨d, ds, rfl⟩ := List.exists_cons_of_ne_nil hlegal.ne_nil
    obtain ⟨rfl, _⟩ := List.cons_prefix_cons.1 hother
    rcases hlegal.of_letter hglyph harrow with hkeyword | ⟨_, hname⟩
    · have hfits := hlongest _ hkeyword (beginsWith_iff.2 ⟨_, hother, rfl⟩)
      simpa using hfits
    · have hone := name_length_le_one hmem hbegins hname hother
      have hpos : ∀ e ∈ keywords, 1 ≤ e.1.length := by decide
      exact Nat.le_trans hone (hpos entry hmem)

theorem longestAt_of_name {c : Char} {rest : List Char} (hglyph : glyph? c = none)
    (harrow : arrow? c = none) (hkeyword : keyword? (c :: rest) = none)
    (hletter : Text.isLetter c = true) :
    LongestAt (c :: rest) (c :: rest.takeWhile Char.isDigit) .name where
  legal := by
    refine .name ⟨hletter, ?_, List.all_eq_true.1 List.all_takeWhile⟩
    rintro rfl
    cases hglyph
  atHead := List.cons_prefix_cons.2 ⟨rfl, List.takeWhile_prefix _⟩
  longest := by
    intro other otherKind hlegal hhead
    obtain ⟨d, ds, rfl⟩ := List.exists_cons_of_ne_nil hlegal.ne_nil
    obtain ⟨rfl, hds⟩ := List.cons_prefix_cons.1 hhead
    rcases hlegal.of_letter hglyph harrow with hmem | ⟨_, _, _, hdigits⟩
    · have := not_beginsWith_of_keyword?_eq_none hkeyword hmem
      rw [beginsWith_iff.2 ⟨_, hhead, rfl⟩] at this
      cases this
    · obtain ⟨tail, rfl⟩ := hds
      rw [List.takeWhile_append_of_pos hdigits]
      simp

end Lexeme

/-- What is done at the head of a text: the first character is a glyph, or it begins an arrow, or else
a keyword or a name is read. -/
theorem lexemeAt_cases {c : Char} {rest : List Char} {motive : Except LexError Lexeme → Prop}
    (glyph : ∀ kind, Lexeme.glyph? c = some kind → motive (.ok ⟨kind, 1⟩))
    (arrow : ∀ arrow kind, Lexeme.glyph? c = none → Lexeme.arrow? c = some (arrow, kind) →
      motive (Lexeme.readArrow arrow kind (c :: rest)))
    (keyword : ∀ lexeme, Lexeme.glyph? c = none → Lexeme.arrow? c = none →
      Lexeme.keyword? (c :: rest) = some lexeme → motive (.ok lexeme))
    (name : Lexeme.glyph? c = none → Lexeme.arrow? c = none →
      Lexeme.keyword? (c :: rest) = none → motive (Lexeme.readName c rest)) :
    motive (lexemeAt c rest) := by
  unfold lexemeAt
  cases hglyph : Lexeme.glyph? c with
  | some kind => exact glyph kind hglyph
  | none =>
    cases harrow : Lexeme.arrow? c with
    | some found => exact arrow found.1 found.2 hglyph harrow
    | none =>
      show motive (Lexeme.readWord c rest)
      unfold Lexeme.readWord
      cases hkeyword : Lexeme.keyword? (c :: rest) with
      | some lexeme => exact keyword lexeme hglyph harrow hkeyword
      | none => exact name hglyph harrow hkeyword

/-- What `lexemeAt` finds is the longest legal lexeme at the head of the text. -/
theorem longestAt_of_lexemeAt {c : Char} {rest : List Char} {lexeme : Lexeme}
    (h : lexemeAt c rest = .ok lexeme) :
    LongestAt (c :: rest) ((c :: rest).take lexeme.width) lexeme.kind := by
  revert h
  refine lexemeAt_cases (motive := fun found => found = .ok lexeme →
    LongestAt (c :: rest) ((c :: rest).take lexeme.width) lexeme.kind) ?glyph ?arrow ?keyword ?name
  case glyph =>
    intro kind hglyph h
    cases h
    exact Lexeme.longestAt_of_glyph hglyph
  case arrow =>
    intro arrow kind hglyph harrow h
    obtain ⟨hhead, rfl⟩ := Lexeme.readArrow_eq_ok_iff.1 h
    show LongestAt (c :: rest) ((c :: rest).take arrow.length) kind
    rw [← List.prefix_iff_eq_take.1 hhead]
    exact Lexeme.longestAt_of_arrow hglyph harrow hhead
  case keyword =>
    intro found hglyph harrow hkeyword h
    cases h
    exact Lexeme.longestAt_of_keyword hglyph harrow hkeyword
  case name =>
    intro hglyph harrow hkeyword h
    unfold Lexeme.readName at h
    by_cases hletter : Text.isLetter c = true
    · rw [if_pos hletter] at h
      cases h
      have hlongest := Lexeme.longestAt_of_name hglyph harrow hkeyword hletter
      rw [List.prefix_iff_eq_take.1 hlongest.atHead] at hlongest
      simpa [Nat.add_comm] using hlongest
    · rw [if_neg hletter] at h
      cases h

/-- Where `lexemeAt` fails, no legal lexeme begins. -/
theorem not_legal_of_lexemeAt_error {c : Char} {rest : List Char} {e : LexError}
    (h : lexemeAt c rest = .error e) {lexeme : List Char} {kind : TokenKind}
    (hlegal : Legal lexeme kind) : ¬ lexeme <+: c :: rest := by
  intro hhead
  obtain ⟨d, ds, rfl⟩ := List.exists_cons_of_ne_nil hlegal.ne_nil
  obtain ⟨rfl, _⟩ := List.cons_prefix_cons.1 hhead
  revert h
  refine lexemeAt_cases (motive := fun found => found = .error e → False)
    ?glyph ?arrow ?keyword ?name
  case glyph =>
    intro glyph _ h
    cases h
  case arrow =>
    intro arrow arrowKind hglyph harrow h
    rw [(hlegal.of_arrow hglyph harrow).1] at hhead
    rw [Lexeme.readArrow_eq_ok_iff.2 ⟨hhead, rfl⟩] at h
    cases h
  case keyword =>
    intro found _ _ _ h
    cases h
  case name =>
    intro hglyph harrow hkeyword h
    rcases hlegal.of_letter hglyph harrow with hmem | ⟨_, hletter, _, _⟩
    · have := Lexeme.not_beginsWith_of_keyword?_eq_none hkeyword hmem
      rw [Lexeme.beginsWith_iff.2 ⟨_, hhead, rfl⟩] at this
      cases this
    · rw [Lexeme.readName, if_pos hletter] at h
      cases h

/-- **The reader finds the longest legal lexeme**, and it finds one wherever there is one. -/
theorem lexemeAt_eq_ok_iff {c : Char} {rest : List Char} {lexeme : Lexeme} :
    lexemeAt c rest = .ok lexeme ↔
      lexeme.width ≤ (c :: rest).length ∧
        LongestAt (c :: rest) ((c :: rest).take lexeme.width) lexeme.kind := by
  constructor
  · intro h
    exact ⟨(lexemeAt_width h).2, longestAt_of_lexemeAt h⟩
  · rintro ⟨hwidth, hlongest⟩
    cases h : lexemeAt c rest with
    | error e => exact absurd hlongest.atHead (not_legal_of_lexemeAt_error h hlongest.legal)
    | ok found =>
      obtain ⟨hsame, hkind⟩ := (longestAt_of_lexemeAt h).unique hlongest
      have hfound := (lexemeAt_width h).2
      have hlen := congrArg List.length hsame
      rw [List.length_take, List.length_take] at hlen
      have hwidths : found.width = lexeme.width := by omega
      cases found
      cases lexeme
      simp only at hwidths hkind
      rw [hwidths, hkind]

end Propositional
