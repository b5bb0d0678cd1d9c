import Propositional.Proofs.Token.Joining
import Propositional.Proofs.Token.Stepping

/-!
# Scanning from any place

A scanner may stand anywhere in its text and hold tokens already.  It goes on as if the text began where
it stands, and where it fails it stays in front of what it could not read.

* `Misread` — the error of a text at whose head no lexeme stands, and where it shows;
* `Stuck` — no lexeme begins a text; `stuck_of_lexemeAt` — where the reader fails, this is so;
* `exists_stuck_of_scanFrom` — a text that is in error is munched up to the place where the scan is stuck;
* `Scanner.run_eq_scan` — a run from any place is the scan of the rest of the text, moved;
* `Scanner.run_midway` — what such a run gives and what it leaves behind.
-/

namespace Propositional

/-! ### The head of a text that no lexeme begins -/

/-- The error of a text at whose head no lexeme stands.  An arrow is missed at the first character that
differs from it, unless the text is too short for it; everything else shows at the first character. -/
inductive Misread (text : List Char) : LexError → Prop
  | unfinished (arrow : String) (isArrow : arrow ∈ ["->", "<->"])
      (begun : text.head? = arrow.toList.head?) (short : text.length < arrow.length) :
      Misread text ⟨.unfinished arrow, 0⟩
  | mismatch (arrow : String) (isArrow : arrow ∈ ["->", "<->"])
      (begun : text.head? = arrow.toList.head?) (long : arrow.length ≤ text.length)
      {offset : Nat} {found due : Char} (same : text.take offset = arrow.toList.take offset)
      (here : text[offset]? = some found) (expected : arrow.toList[offset]? = some due)
      (differs : found ≠ due) : Misread text ⟨.mismatch found arrow, offset⟩
  | notLetter {c : Char} (first : text.head? = some c) (noArrow : c ≠ '-' ∧ c ≠ '<')
      (caseless : Text.isLetter c = false) : Misread text ⟨.notLetter c, 0⟩

/-- A text that begins neither with a blank or a line feed nor with a legal lexeme, and its error. -/
structure Stuck (text : List Char) (e : LexError) : Prop where
  nonempty : text ≠ []
  notBlank : ∀ c ∈ text.head?, c ≠ ' ' ∧ c ≠ '\n'
  noLexeme : ∀ {lexeme : List Char} {kind : TokenKind}, Legal lexeme kind → ¬ lexeme <+: text
  misread : Misread text e

namespace Lexeme

/-- The place where a text departs from an expected one is the first at which they differ. -/
theorem departure?_eq_some {expected text : List Char} {offset : Nat} {found : Char}
    (h : departure? expected text = some (offset, found)) :
    text.take offset = expected.take offset ∧ text[offset]? = some found ∧
      ∃ due, expected[offset]? = some due ∧ found ≠ due := by
  induction expected generalizing text offset with
  | nil => cases h
  | cons due expected ih =>
    cases text with
    | nil => cases h
    | cons c text =>
      by_cases hc : c = due
      · rw [departure?, if_pos hc] at h
        obtain ⟨⟨before, other⟩, hlater, hplace⟩ := Option.map_eq_some_iff.1 h
        cases hplace
        obtain ⟨hsame, hhere, hdue⟩ := ih hlater
        refine ⟨?_, hhere, hdue⟩
        rw [List.take_succ_cons, List.take_succ_cons, hc, hsame]
      · rw [departure?, if_neg hc] at h
        cases h
        exact ⟨rfl, rfl, due, rfl, hc⟩

/-- The arrows by their first characters. -/
theorem arrow?_spelled {c : Char} {arrow : List Char} {kind : TokenKind}
    (h : arrow? c = some (arrow, kind)) :
    String.ofList arrow ∈ ["->", "<->"] ∧ arrow.head? = some c := by
  unfold arrow? at h
  split at h <;> cases h <;> exact ⟨by decide, rfl⟩

theorem misread_of_readArrow {c : Char} {rest arrow : List Char} {kind : TokenKind} {e : LexError}
    (harrow : arrow? c = some (arrow, kind)) (h : readArrow arrow kind (c :: rest) = .error e) :
    Misread (c :: rest) e := by
  obtain ⟨hspelled, hfirst⟩ := arrow?_spelled harrow
  have hbegun : (c :: rest).head? = (String.ofList arrow).toList.head? := by
    rw [String.toList_ofList, hfirst, List.head?_cons]
  unfold readArrow at h
  split at h
  next hshort =>
    cases h
    refine .unfinished _ hspelled hbegun ?_
    rw [List.length_take] at hshort
    rw [String.length_ofList]
    omega
  next hlong =>
    split at h
    next offset found hdeparture =>
      cases h
      obtain ⟨hsame, hhere, due, hdue, hdiffers⟩ := departure?_eq_some hdeparture
      rw [List.length_take] at hlong
      refine .mismatch _ hspelled hbegun ?_ ?_ hhere ?_ hdiffers
      · rw [String.length_ofList]
        omega
      · rwa [String.toList_ofList]
      · rwa [String.toList_ofList]
    next => cases h

end Lexeme

/-- Where the reader fails, the text is misread as its error says. -/
theorem misread_of_lexemeAt {c : Char} {rest : List Char} {e : LexError}
    (h : lexemeAt c rest = .error e) : Misread (c :: rest) e := by
  revert h
  refine lexemeAt_cases (motive := fun found => found = .error e → Misread (c :: rest) e)
    ?glyph ?arrow ?keyword ?name
  case glyph =>
    intro kind _ h
    cases h
  case arrow =>
    intro arrow kind _ harrow h
    exact Lexeme.misread_of_readArrow harrow h
  case keyword =>
    intro found _ _ _ h
    cases h
  case name =>
    intro _ harrow _ h
    unfold Lexeme.readName at h
    split at h
    · cases h
    next hletter =>
      cases h
      refine .notLetter rfl ⟨?_, ?_⟩ (by simpa using hletter) <;>
        · rintro rfl
          cases harrow

theorem stuck_of_lexemeAt {c : Char} {rest : List Char} {e : LexError}
    (hskip : Lexeme.isSkipped c = false) (h : lexemeAt c rest = .error e) : Stuck (c :: rest) e where
  nonempty := List.cons_ne_nil c rest
  notBlank := by
    intro d hd
    cases hd
    rw [← not_or, ← isSkipped_iff, hskip]
    exact Bool.false_ne_true
  noLexeme := fun hlegal => not_legal_of_lexemeAt_error h hlegal
  misread := misread_of_lexemeAt h

/-! ### Texts in error -/

theorem LexError.shift_zero (e : LexError) : e.shift 0 = e := by
  rw [LexError.shift, Int.zero_add]

theorem LexError.shift_shift (e : LexError) (distance further : Int) :
    (e.shift distance).shift further = e.shift (further + distance) := by
  simp only [LexError.shift, Int.add_assoc]

/-- What a scan that fails has read, and what stops it; from there on it reads nothing. -/
theorem exists_stuck_of_scanFrom {text : List Char} {e : LexError}
    (h : (scanFrom [] 0 text).error = some e) :
    ∃ (read rest : List Char) (added : List Token) (stuck : LexError), text = read ++ rest ∧
      MunchUpTo rest 0 read added ∧ Stuck rest stuck ∧ e = stuck.shift read.length ∧
      scanFrom [] 0 text = ⟨added, read.length, some e⟩ ∧
      scanFrom [] 0 rest = ⟨[], 0, some stuck⟩ := by
  obtain ⟨read, rest, added, htext, hmunch, htokens, hcursor, hstops⟩ :=
    exists_munchUpTo_of_scanFrom [] 0 text
  rw [List.reverse_nil, List.nil_append] at htokens
  rw [Nat.zero_add] at hcursor
  cases rest with
  | nil =>
    rw [Scan.StopsAt, h] at hstops
    cases hstops
  | cons c rest =>
    obtain ⟨hskip, stuck, hfails, herror⟩ := hstops
    rw [h, hcursor] at herror
    refine ⟨read, c :: rest, added, stuck, htext, hmunch, stuck_of_lexemeAt hskip hfails,
      Option.some.inj herror, ?_, ?_⟩
    · rw [← htokens, ← hcursor, ← h]
    · have hstays : ¬ Lexeme.isSkipped c = true := by simp [hskip]
      rw [scanFrom, if_neg hstays]
      simp only [hfails]
      rw [Int.natCast_zero, LexError.shift_zero, List.reverse_nil]

theorem scanFrom_error_of_lex {text : List Char} {e : LexError}
    (h : lex (String.ofList text) = .error e) : (scanFrom [] 0 text).error = some e := by
  unfold lex at h
  rw [String.toList_ofList] at h
  cases herror : (scanFrom [] 0 text).error with
  | none =>
    simp only [herror] at h
    cases h
  | some other =>
    simp only [herror] at h
    cases h
    rfl

theorem scanFrom_of_lex {text : List Char} {tokens : List Token}
    (h : lex (String.ofList text) = .ok tokens) :
    ∃ found, scanFrom [] 0 text = ⟨found, text.length, none⟩ ∧
      tokens = found ++ [Token.endMark text.length] := by
  obtain ⟨found, hmunch, htokens⟩ := munch_of_lex h
  rw [String.toList_ofList] at hmunch
  rw [String.length_ofList] at htokens
  refine ⟨found, ?_, htokens⟩
  rw [scanFrom_of_munch hmunch, List.reverse_nil, List.nil_append, Nat.zero_add]

/-! ### Runs -/

namespace Scanner

/-- A run from any place is the scan of the rest of the text, moved. -/
theorem run_eq_scan {source text : List Char} {place : Nat} (hahead : source.drop place = text)
    (earlier : List Token) :
    (⟨source, place, earlier⟩ : Scanner).run =
      (⟨source, ((scanFrom [] 0 text).cursor + place : Nat),
        earlier ++ (scanFrom [] 0 text).tokens.map (Token.shift place) ++
          if (scanFrom [] 0 text).error.isNone then [Token.endMark source.length] else []⟩,
        (scanFrom [] 0 text).error.map fun e => .lex (e.shift place)) := by
  have hcursor : ¬ (⟨source, place, earlier⟩ : Scanner).cursor < 0 := Int.not_lt.2 (Int.natCast_nonneg place)
  have htext : (⟨source, place, earlier⟩ : Scanner).ahead = text := by
    rw [ahead, Text.readFrom, if_neg hcursor, ← hahead]
    rfl
  have hplace : (⟨source, place, earlier⟩ : Scanner).cursor.toNat = place := rfl
  rw [run, enter, if_neg hcursor]
  simp only [finish]
  rw [htext, hplace, scanFrom_eq_moved]
  simp [Scan.moved, Function.comp_def]

/-- A run that fails goes by steps to the place where it stops, and the step there fails. -/
theorem reaches_of_scan {source : List Char} {place : Nat} (inside : place ≤ source.length)
    (earlier : List Token) {added : List Token} {cursor : Nat} {e : LexError}
    (hscan : scanFrom [] 0 (source.drop place) = ⟨added, cursor, some e⟩) :
    Reaches ⟨source, place, earlier⟩
        ⟨source, (cursor + place : Nat), earlier ++ added.map (Token.shift place)⟩ ∧
      dispatch ⟨source, (cursor + place : Nat), earlier ++ added.map (Token.shift place)⟩ =
        .error (.lex (e.shift place)) := by
  have hinside : Inside ⟨source, place, earlier⟩ := ⟨Int.natCast_nonneg place, Int.ofNat_le.2 inside⟩
  have hearlier : earlier = earlier.reverse.reverse := (List.reverse_reverse earlier).symm
  obtain ⟨⟨text, stop, tokens⟩, hreaches, hcursor, htokens, hends⟩ :=
    exists_reaches_scanFrom hinside rfl hinside.ahead_eq_drop hearlier
  have hsource : text = source := (hreaches.inside hinside).2
  have hplace : (place : Int).toNat = place := Int.toNat_natCast place
  rw [hplace, scanFrom_eq_moved, hscan, List.reverse_reverse] at hcursor htokens hends
  simp only [Scan.moved, Option.map_some] at hcursor htokens hends
  subst hsource hcursor htokens
  exact ⟨hreaches, hends.2⟩

/-- **A run from any place.**  What a run gives depends only on the rest of the text: it gives the tokens
of the rest, moved, behind those that the scanner holds, with the cursor at the end; or it fails with the
error of the rest, moved.  Then the rest is munched up to a place where the scan is stuck: there stands the
cursor, and what was munched has tokens of its own, which are kept behind the earlier ones.  The single steps
lead there, too.  From this place on a run fails in the same way and changes nothing. -/
theorem run_midway (source : List Char) (place : Nat) (earlier : List Token)
    (inside : place ≤ source.length) :
    (∀ tokens, lex (String.ofList (source.drop place)) = .ok tokens →
      (⟨source, place, earlier⟩ : Scanner).run =
        (⟨source, source.length, earlier ++ tokens.map (Token.shift place)⟩, none)) ∧
    ∀ e, lex (String.ofList (source.drop place)) = .error e →
      ∃ (read rest : List Char) (added : List Token) (stuck : LexError) (t : Scanner),
        source.drop place = read ++ rest ∧ MunchUpTo rest 0 read added ∧
        lex (String.ofList read) = .ok (added ++ [Token.endMark read.length]) ∧
        Stuck rest stuck ∧ e = stuck.shift read.length ∧
        t = ⟨source, (place + read.length : Nat), earlier ++ added.map (Token.shift place)⟩ ∧
        (⟨source, place, earlier⟩ : Scanner).run = (t, some (.lex (e.shift place))) ∧
        t.run = (t, some (.lex (e.shift place))) ∧
        Reaches ⟨source, place, earlier⟩ t ∧ t.dispatch = .error (.lex (e.shift place)) := by
  constructor
  · intro tokens h
    obtain ⟨found, hscan, rfl⟩ := scanFrom_of_lex h
    have hlength : (source.drop place).length + place = source.length := by
      rw [List.length_drop]
      omega
    have hmark : Token.shift place (Token.endMark (source.drop place).length) =
        Token.endMark source.length := by
      rw [Token.shift, Token.endMark, ← hlength, Int.natCast_add]
      rfl
    rw [run_eq_scan rfl, hscan, hlength, List.map_append, List.map_singleton, hmark, List.append_assoc]
    rfl
  · intro e h
    obtain ⟨read, rest, added, stuck, htext, hmunch, hstuck, rfl, hscan, hstays⟩ :=
      exists_stuck_of_scanFrom (scanFrom_error_of_lex h)
    obtain ⟨hreaches, hfails⟩ := reaches_of_scan inside earlier hscan
    rw [Nat.add_comm] at hreaches hfails
    have hread : lex (String.ofList read) = .ok (added ++ [Token.endMark read.length]) := by
      rw [lex_of_munch (by rw [String.toList_ofList]; exact hmunch.munch), String.length_ofList]
    have hrest : source.drop (place + read.length) = rest := by
      rw [← List.drop_drop, htext, List.drop_left]
    refine ⟨read, rest, added, stuck, _, htext, hmunch, hread, hstuck, rfl, rfl, ?_, ?_, hreaches, hfails⟩
    · rw [run_eq_scan rfl, hscan, Nat.add_comm]
      simp
    · rw [run_eq_scan hrest, hstays, Nat.zero_add, LexError.shift_shift, Int.natCast_add]
      simp

/-- In front of the last letter a run reads it; from inside the keyword on it reads two names and stops at
the arrow, again and again. -/
theorem run_midway_iff :
    6 ≤ "iff <-q".toList.length ∧
    (⟨"iff <-q".toList, (6 : Nat), []⟩ : Scanner).run =
      (⟨"iff <-q".toList, 7, [⟨.name, "q", 6⟩, ⟨.endMark, "", 7⟩]⟩, none) ∧
    ∃ t : Scanner, t.source = "iff <-q".toList ∧
      (⟨"iff <-q".toList, (1 : Nat), [⟨.name, "x", 7⟩]⟩ : Scanner).run =
        (t, some (.lex ⟨.mismatch 'q' "<->", 6⟩)) ∧
      t.run = (t, some (.lex ⟨.mismatch 'q' "<->", 6⟩)) := by
  have hreads : lex (String.ofList ("iff <-q".toList.drop 6)) =
      .ok [⟨.name, "q", 0⟩, ⟨.endMark, "", 1⟩] := by
    decide +kernel
  have hfails : lex (String.ofList ("iff <-q".toList.drop 1)) = .error ⟨.mismatch 'q' "<->", 5⟩ := by
    decide +kernel
  have hinside : 6 ≤ "iff <-q".toList.length := by decide
  refine ⟨hinside, (run_midway _ 6 [] hinside).1 _ hreads, ?_⟩
  obtain ⟨_, _, _, _, t, _, _, _, _, _, ht, hrun, hagain, _⟩ :=
    (run_midway "iff <-q".toList 1 [⟨.name, "x", 7⟩] (by decide)).2 _ hfails
  exact ⟨t, by rw [ht], hrun, hagain⟩

end Scanner

end Propositional
