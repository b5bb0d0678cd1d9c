import Mathlib.Logic.Relation
import Propositional.Proofs.Token.LexicalGrammar
import Propositional.Token.Scanner

/-!
# Lexing step by step

A scanner chooses at each character what to read there, and the readers fail where no character stands
or where theirs does not begin.  The choice never leads there.

* `Scanner.dispatch` — the reader that the character at the cursor asks for; a step is this reader
  (`Scanner.advance_eq_dispatch`);
* `Scanner.Reaches` — scanners that are reached by steps; `Scanner.Inside` — the cursor does not leave
  the text;
* `Scanner.dispatch_inside` — what one step does inside the text; `Scanner.Reaches.inside` — what many
  do;
* `Scanner.Reaches.error_eq_lex` — a step that fails reports an error of the text;
* `Scanner.exists_reaches_scanFrom` — a scan goes where the steps go;
* `exists_reaches_lex` — lexing ends where the steps from the beginning of the text end.
-/

namespace Propositional

namespace Lexeme

theorem lexemeAt_of_word {c : Char} (hglyph : glyph? c = none) (harrow : arrow? c = none)
    (rest : List Char) : lexemeAt c rest = readWord c rest := by
  simp only [lexemeAt, hglyph, harrow]

theorem lexemeAt_of_beginsKeyword {c : Char} (h : beginsKeyword c = true) (rest : List Char) :
    lexemeAt c rest = readWord c rest := by
  have hglyph : glyph? c = none := by
    rw [Option.eq_none_iff_forall_ne_some]
    intro kind hkind
    rw [not_beginsKeyword_of_glyph hkind] at h
    cases h
  have harrow : arrow? c = none := by
    rw [Option.eq_none_iff_forall_ne_some]
    intro arrow hsome
    rw [not_beginsKeyword_of_arrow hsome] at h
    cases h
  exact lexemeAt_of_word hglyph harrow rest

theorem beginsKeyword_of_beginsWith {c : Char} {rest : List Char} {entry : List Char × TokenKind}
    (hmem : entry ∈ keywords) (h : beginsWith entry.1 (c :: rest) = true) :
    beginsKeyword c = true := by
  have hnonempty : ∀ e ∈ keywords, e.1 ≠ [] := by decide
  rw [beginsKeyword, List.any_eq_true]
  refine ⟨entry, hmem, ?_⟩
  have hword := eq_of_beq h
  cases hentry : entry.1 with
  | nil => exact absurd hentry (hnonempty entry hmem)
  | cons first word =>
    rw [hentry, List.length_cons, List.take_succ_cons, List.map_cons] at hword
    rw [← (List.cons.inj hword).1]
    simp

/-- A letter with which no keyword begins can only begin a name. -/
theorem readWord_eq_readName {c : Char} (h : beginsKeyword c = false) (rest : List Char) :
    readWord c rest = readName c rest := by
  have hnone : keyword? (c :: rest) = none := by
    rw [keyword?, Option.map_eq_none_iff, List.find?_eq_none]
    intro entry hmem hbegins
    rw [beginsKeyword_of_beginsWith hmem hbegins] at h
    cases h
  rw [readWord, hnone]

end Lexeme

namespace Scanner

/-! ### One step -/

/-- The reader that the character at the cursor asks for.  Each reader looks at that character again,
and fails where none stands or where it does not begin what is read. -/
def dispatch (s : Scanner) : Except StepError Scanner :=
  match s.ahead with
  | [] => .error .outside
  | c :: _ =>
    if Lexeme.isSkipped c then .ok (s.seek (s.cursor + 1))
    else
      match Lexeme.glyph? c, Lexeme.arrow? c with
      | some kind, _ => .ok (s.emit kind 1)
      | none, some _ => s.readArrow
      | none, none => if Lexeme.beginsKeyword c then s.readWord else s.readName

/-- A step is the reader that the character at the cursor asks for. -/
theorem advance_eq_dispatch (s : Scanner) : s.advance = s.dispatch := by
  rw [advance, dispatch]
  cases hahead : s.ahead with
  | nil => rfl
  | cons c rest =>
    dsimp only
    split
    · rfl
    · cases hglyph : Lexeme.glyph? c with
      | some kind =>
        rw [Lexeme.not_beginsKeyword_of_glyph hglyph]
        simp [lexemeAt, hglyph, add]
      | none =>
        cases harrow : Lexeme.arrow? c with
        | some arrow =>
          rw [Lexeme.not_beginsKeyword_of_arrow harrow]
          simp [lexemeAt, hglyph, harrow, readArrow, hahead]
        | none =>
          cases hkeyword : Lexeme.beginsKeyword c with
          | true => simp [readWord, hahead, hkeyword]
          | false =>
            simp [readName, hahead, Lexeme.lexemeAt_of_word hglyph harrow,
              Lexeme.readWord_eq_readName hkeyword]

/-- From the beginning of the text on a step adds the lexeme at the cursor. -/
theorem dispatch_eq_add {s : Scanner} (hcursor : 0 ≤ s.cursor) {c : Char} {rest : List Char}
    (h : s.ahead = c :: rest) :
    s.dispatch =
      if Lexeme.isSkipped c then .ok (s.seek (s.cursor + 1)) else s.add (lexemeAt c rest) := by
  have hwords : s.wordsAhead = s.ahead := if_neg (Int.not_lt.2 hcursor)
  rw [← advance_eq_dispatch, advance, h]
  dsimp only
  cases hkeyword : Lexeme.beginsKeyword c with
  | true =>
    rw [if_pos rfl, word, hwords, h, Lexeme.lexemeAt_of_beginsKeyword hkeyword]
    rfl
  | false => rw [if_neg Bool.false_ne_true]

/-- The cursor stands at a character of the text or behind the last one. -/
structure Inside (s : Scanner) : Prop where
  nonneg : 0 ≤ s.cursor
  le_length : s.cursor ≤ s.source.length

theorem inside_ofSource (source : String) : (ofSource source).Inside where
  nonneg := Int.le_refl 0
  le_length := Int.natCast_nonneg _

namespace Inside

variable {s : Scanner}

theorem ahead_eq_drop (h : s.Inside) : s.ahead = s.source.drop s.cursor.toNat := by
  rw [ahead, Text.readFrom, if_neg (Int.not_lt.2 h.nonneg)]

theorem length_ahead (h : s.Inside) : s.cursor + s.ahead.length = s.source.length := by
  have hnonneg := h.nonneg
  have hle := h.le_length
  rw [h.ahead_eq_drop, List.length_drop]
  omega

/-- When the cursor moves on, less of the text is left. -/
theorem ahead_of_cursor (h : s.Inside) (t : Scanner) (width : Nat) (hsource : t.source = s.source)
    (hcursor : t.cursor = s.cursor + width) : t.ahead = s.ahead.drop width := by
  have hnonneg := h.nonneg
  have hplace : t.cursor.toNat = s.cursor.toNat + width := by omega
  rw [h.ahead_eq_drop, List.drop_drop, ahead, Text.readFrom, if_neg (by omega), hsource, hplace]

theorem ahead_seek (h : s.Inside) : (s.seek (s.cursor + 1)).ahead = s.ahead.drop 1 :=
  h.ahead_of_cursor _ 1 rfl rfl

theorem ahead_emit (h : s.Inside) (kind : TokenKind) (width : Nat) :
    (s.emit kind width).ahead = s.ahead.drop width :=
  h.ahead_of_cursor _ width rfl rfl

/-- The lexeme of an added token is what stands at the cursor. -/
theorem tokens_emit (h : s.Inside) (kind : TokenKind) (width : Nat) :
    (s.emit kind width).tokens =
      s.tokens ++ [⟨kind, String.ofList (s.ahead.take width), s.cursor⟩] := by
  have hlexeme : Text.between s.source s.cursor (s.cursor + width) = s.ahead.take width := by
    obtain ⟨place, hplace⟩ := Int.eq_ofNat_of_zero_le h.nonneg
    rw [h.ahead_eq_drop, hplace, Text.between_natCast, Int.toNat_natCast]
  rw [emit, hlexeme]

/-- In front of the end a character stands at the cursor. -/
theorem exists_ahead (h : s.Inside) (hlt : s.cursor < s.source.length) :
    ∃ c rest, s.ahead = c :: rest := by
  have hlength := h.length_ahead
  apply List.exists_cons_of_ne_nil
  intro hnil
  rw [hnil, List.length_nil] at hlength
  omega

/-- At the end of the text no step is taken. -/
theorem cursor_lt_of_dispatch (h : s.Inside) {t : Scanner} (hstep : s.dispatch = .ok t) :
    s.cursor < s.source.length := by
  rcases Int.lt_or_le s.cursor s.source.length with hlt | hge
  · exact hlt
  · have hlength := h.length_ahead
    have hnil : s.ahead = [] := List.eq_nil_of_length_eq_zero (by omega)
    rw [dispatch, hnil] at hstep
    cases hstep

end Inside

/-- Inside the text, in front of its end, a step either goes on inside the text or reports an error of
the text. -/
theorem dispatch_inside {s : Scanner} (h : s.Inside) (hlt : s.cursor < s.source.length) :
    (∃ t, s.dispatch = .ok t ∧ t.Inside ∧ t.source = s.source ∧ s.cursor < t.cursor) ∨
      ∃ e, s.dispatch = .error (.lex e) := by
  obtain ⟨c, rest, hahead⟩ := h.exists_ahead hlt
  have hlength := h.length_ahead
  have hnonneg := h.nonneg
  have hdispatch := dispatch_eq_add hnonneg hahead
  rw [hahead, List.length_cons] at hlength
  by_cases hskip : Lexeme.isSkipped c = true
  · rw [if_pos hskip] at hdispatch
    refine .inl ⟨_, hdispatch, ⟨?_, ?_⟩, rfl, ?_⟩ <;> simp only [seek] <;> omega
  · rw [if_neg hskip] at hdispatch
    cases hlexeme : lexemeAt c rest with
    | error e =>
      rw [hlexeme] at hdispatch
      exact .inr ⟨_, hdispatch⟩
    | ok lexeme =>
      rw [hlexeme] at hdispatch
      obtain ⟨hpos, hwidth⟩ := lexemeAt_width hlexeme
      rw [List.length_cons] at hwidth
      refine .inl ⟨_, hdispatch, ⟨?_, ?_⟩, rfl, ?_⟩ <;> simp only [emit] <;> omega

/-! ### Many steps -/

/-- A scanner comes to another one by steps. -/
def Reaches : Scanner → Scanner → Prop := Relation.ReflTransGen fun s t => s.dispatch = .ok t

namespace Reaches

variable {s t : Scanner}

/-- Steps from inside the text stay inside of the same text. -/
theorem inside (h : s.Reaches t) (hs : s.Inside) : t.Inside ∧ t.source = s.source := by
  induction h with
  | refl => exact ⟨hs, rfl⟩
  | @tail u v _ hstep ih =>
    obtain ⟨hu, hsource⟩ := ih
    have hlt := hu.cursor_lt_of_dispatch hstep
    rcases dispatch_inside hu hlt with ⟨w, hw, hinside, hsame, _⟩ | ⟨e, he⟩
    · rw [hstep] at hw
      cases hw
      exact ⟨hinside, hsame.trans hsource⟩
    · rw [hstep] at he
      cases he

/-- In front of the end of the text, a step that fails reports an error of the text. -/
theorem error_eq_lex (h : s.Reaches t) (hs : s.Inside) (hlt : t.cursor < t.source.length)
    {e : StepError} (hstep : t.dispatch = .error e) : ∃ e', e = .lex e' := by
  rcases dispatch_inside (h.inside hs).1 hlt with ⟨u, hu, _⟩ | ⟨e', he'⟩
  · rw [hstep] at hu
    cases hu
  · rw [hstep] at he'
    cases he'
    exact ⟨e', rfl⟩

end Reaches

/-- Where a scanner stands after a scan has gone through the rest of its text: at the end, or where a
step fails. -/
def StandsAt (t : Scanner) (scan : Scan) : Prop :=
  t.cursor = scan.cursor ∧ t.tokens = scan.tokens ∧
    match scan.error with
    | none => t.cursor = t.source.length
    | some e => t.cursor < t.source.length ∧ t.dispatch = .error (.lex e)

/-- A scan goes where the steps go. -/
theorem exists_reaches_scanFrom {found : List Token} {start : Nat} {text : List Char} {s : Scanner}
    (hs : s.Inside) (hcursor : s.cursor = start) (hahead : s.ahead = text)
    (htokens : s.tokens = found.reverse) :
    ∃ t, s.Reaches t ∧ t.StandsAt (scanFrom found start text) := by
  -- the scan reads what is ahead of the scanner, and each lexeme is one step of it
  induction found, start, text using scanFrom.induct generalizing s with
  | case1 found start =>
    have hlength := hs.length_ahead
    rw [hahead, List.length_nil, Int.natCast_zero, Int.add_zero] at hlength
    refine ⟨s, .refl, ?_⟩
    rw [scanFrom]
    exact ⟨hcursor, htokens, hlength⟩
  | case2 found start c rest hskip ih =>
    have hdispatch := dispatch_eq_add hs.nonneg hahead
    rw [if_pos hskip] at hdispatch
    have hstep : s.Reaches (s.seek (s.cursor + 1)) := .single hdispatch
    have hplace : (s.seek (s.cursor + 1)).cursor = ((start + 1 : Nat) : Int) := by
      rw [Int.natCast_add, ← hcursor]
      rfl
    have hrest : (s.seek (s.cursor + 1)).ahead = rest := by
      rw [hs.ahead_seek, hahead]
      rfl
    obtain ⟨t, hreaches, hstands⟩ := ih (hstep.inside hs).1 hplace hrest htokens
    rw [scanFrom, if_pos hskip]
    exact ⟨t, hstep.trans hreaches, hstands⟩
  | case3 found start c rest hskip e herror =>
    have hdispatch := dispatch_eq_add hs.nonneg hahead
    rw [if_neg hskip, herror] at hdispatch
    have hlength := hs.length_ahead
    rw [hahead, List.length_cons] at hlength
    refine ⟨s, .refl, ?_⟩
    rw [scanFrom, if_neg hskip]
    simp only [herror]
    refine ⟨hcursor, htokens, by omega, ?_⟩
    rw [hdispatch, add, hcursor]
  | case4 found start c rest hskip lexeme hok spelling =>
    rename_i ih
    have hdispatch := dispatch_eq_add hs.nonneg hahead
    rw [if_neg hskip, hok] at hdispatch
    have hstep : s.Reaches (s.emit lexeme.kind lexeme.width) := .single hdispatch
    have hplace : (s.emit lexeme.kind lexeme.width).cursor =
        ((start + lexeme.width : Nat) : Int) := by
      rw [Int.natCast_add, ← hcursor]
      rfl
    have hrest : (s.emit lexeme.kind lexeme.width).ahead = rest.drop (lexeme.width - 1) := by
      obtain ⟨width, hwidth⟩ : ∃ width, lexeme.width = width + 1 :=
        ⟨lexeme.width - 1, by have := (lexemeAt_width hok).1; omega⟩
      rw [hs.ahead_emit, hahead, hwidth, List.drop_succ_cons, Nat.add_sub_cancel]
    have hadded : (s.emit lexeme.kind lexeme.width).tokens =
        (⟨lexeme.kind, spelling, start⟩ :: found).reverse := by
      rw [hs.tokens_emit, hahead, hcursor, htokens, List.reverse_cons]
    obtain ⟨t, hreaches, hstands⟩ := ih (hstep.inside hs).1 hplace hrest hadded
    rw [scanFrom, if_neg hskip]
    simp only [hok]
    exact ⟨t, hstep.trans hreaches, hstands⟩

end Scanner

/-! ### Whole texts -/

/-- The steps from the beginning of a text end where lexing ends. -/
theorem exists_reaches_lex (source : String) :
    ∃ t, (Scanner.ofSource source).Reaches t ∧
      match lex source with
      | .ok tokens =>
        t.cursor = source.length ∧ tokens = t.tokens ++ [Token.endMark source.length]
      | .error e => t.cursor < source.length ∧ t.dispatch = .error (.lex e) := by
  have hinside := Scanner.inside_ofSource source
  have hahead : (Scanner.ofSource source).ahead = source.toList := hinside.ahead_eq_drop
  have hempty : (Scanner.ofSource source).tokens = ([] : List Token).reverse := rfl
  obtain ⟨t, hreaches, hcursor, htokens, hends⟩ :=
    Scanner.exists_reaches_scanFrom hinside rfl hahead hempty
  have hsource : t.source = source.toList := (hreaches.inside hinside).2
  refine ⟨t, hreaches, ?_⟩
  rw [hsource, String.length_toList] at hends
  unfold lex
  cases herror : (scanFrom [] 0 source.toList).error with
  | none =>
    simp only [herror] at hends ⊢
    exact ⟨hends, by rw [htokens]⟩
  | some e =>
    simp only [herror] at hends ⊢
    exact hends

end Propositional
