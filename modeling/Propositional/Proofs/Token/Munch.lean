import Mathlib.Control.Monad.Basic
import Propositional.Proofs.Token.LexicalGrammar
import Propositional.Token.Scanner

/-!
# Lexing is maximal munch

* `Munch` — a text is read from left to right: blanks and line feeds are skipped, and what is taken is
  the longest legal lexeme each time;
* `MunchUpTo` — the same in front of more text; `MunchUpTo.scanFrom_append`,
  `exists_munchUpTo_of_scanFrom` — a scan reads a text so, up to the place where it stops;
* `munch_of_scanFrom`, `scanFrom_of_munch` — so it comes to the end of a text without error exactly
  if the text can be read so, and finds the same tokens;
* `Tiles` — tokens that tile a text: they stand where they say, one behind the other, and only
  blanks and line feeds lie between them;
* `Munch.tiles` — the tokens of a munched text tile it;
* `lex_eq_ok_iff_munch` — both for whole texts, with the end mark.
-/

namespace Propositional

/-! ### The reading of a text by longest lexemes -/

/-- The tokens of a text whose first character has offset `start`: what is taken is the longest
legal lexeme each time. -/
inductive Munch : Nat → List Char → List Token → Prop
  | done {start : Nat} : Munch start [] []
  | skip {start : Nat} {c : Char} {rest : List Char} {tokens : List Token}
      (blank : c = ' ' ∨ c = '\n') (later : Munch (start + 1) rest tokens) :
      Munch start (c :: rest) tokens
  | take {start : Nat} {lexeme rest : List Char} {kind : TokenKind} {tokens : List Token}
      (longest : LongestAt (lexeme ++ rest) lexeme kind)
      (later : Munch (start + lexeme.length) rest tokens) :
      Munch start (lexeme ++ rest) (⟨kind, String.ofList lexeme, start⟩ :: tokens)

theorem isSkipped_iff {c : Char} : Lexeme.isSkipped c = true ↔ c = ' ' ∨ c = '\n' := by
  simp [Lexeme.isSkipped]

/-- No legal lexeme begins with a skipped character, so skipping takes nothing away. -/
theorem Legal.not_isSkipped {c : Char} {cs : List Char} {kind : TokenKind}
    (h : Legal (c :: cs) kind) : Lexeme.isSkipped c = false := by
  rw [Bool.eq_false_iff]
  intro hskip
  rcases isSkipped_iff.1 hskip with rfl | rfl
  · have hnone : lexemeAt ' ' cs = .error ⟨.notLetter ' ', 0⟩ := rfl
    exact not_legal_of_lexemeAt_error hnone h (List.prefix_refl _)
  · have hnone : lexemeAt '\n' cs = .error ⟨.notLetter '\n', 0⟩ := rfl
    exact not_legal_of_lexemeAt_error hnone h (List.prefix_refl _)

theorem LongestAt.lexemeAt_eq {c : Char} {cs rest : List Char} {kind : TokenKind}
    (h : LongestAt (c :: cs ++ rest) (c :: cs) kind) :
    lexemeAt c (cs ++ rest) = .ok ⟨kind, (c :: cs).length⟩ := by
  refine lexemeAt_eq_ok_iff.2 ⟨?_, ?_⟩
  · exact h.atHead.length_le
  · show LongestAt (c :: cs ++ rest) ((c :: cs ++ rest).take (c :: cs).length) kind
    rw [List.take_left]
    exact h

/-! ### A scan munches -/

/-- The tokens of a text with `rest` behind it, read as above.  The longest lexeme is that of all that
follows, so `rest` is looked at, too. -/
inductive MunchUpTo (rest : List Char) : Nat → List Char → List Token → Prop
  | done {start : Nat} : MunchUpTo rest start [] []
  | skip {start : Nat} {c : Char} {text : List Char} {tokens : List Token}
      (blank : c = ' ' ∨ c = '\n') (later : MunchUpTo rest (start + 1) text tokens) :
      MunchUpTo rest start (c :: text) tokens
  | take {start : Nat} {lexeme text : List Char} {kind : TokenKind} {tokens : List Token}
      (longest : LongestAt (lexeme ++ (text ++ rest)) lexeme kind)
      (later : MunchUpTo rest (start + lexeme.length) text tokens) :
      MunchUpTo rest start (lexeme ++ text) (⟨kind, String.ofList lexeme, start⟩ :: tokens)

theorem munchUpTo_nil_iff {start : Nat} {text : List Char} {tokens : List Token} :
    MunchUpTo [] start text tokens ↔ Munch start text tokens := by
  constructor
  · intro h
    induction h with
    | done => exact .done
    | skip blank _ ih => exact .skip blank ih
    | take longest _ ih => exact .take (by rwa [List.append_nil] at longest) ih
  · intro h
    induction h with
    | done => exact .done
    | skip blank _ ih => exact .skip blank ih
    | take longest _ ih => exact .take (by rwa [List.append_nil]) ih

/-- What is munched is scanned, and the scan goes on behind it. -/
theorem MunchUpTo.scanFrom_append {start : Nat} {text rest : List Char} {tokens : List Token}
    (h : MunchUpTo rest start text tokens) (found : List Token) :
    scanFrom found start (text ++ rest) =
      scanFrom (tokens.reverse ++ found) (start + text.length) rest := by
  induction h generalizing found with
  | done => rfl
  | @skip start c text tokens blank _ ih =>
    rw [List.cons_append, scanFrom, if_pos (isSkipped_iff.2 blank), ih, List.length_cons,
      Nat.add_right_comm, Nat.add_assoc]
  | @take start lexeme text kind tokens longest _ ih =>
    obtain ⟨c, cs, rfl⟩ := List.exists_cons_of_ne_nil longest.legal.ne_nil
    have hskip : ¬ Lexeme.isSkipped c = true := by simp [longest.legal.not_isSkipped]
    rw [List.append_assoc, List.cons_append, scanFrom, if_neg hskip]
    simp only [longest.lexemeAt_eq]
    have htake : (c :: (cs ++ (text ++ rest))).take (c :: cs).length = c :: cs := by simp
    have hdrop : (cs ++ (text ++ rest)).drop ((c :: cs).length - 1) = text ++ rest := by simp
    rw [htake, hdrop, ih, List.reverse_cons, List.append_assoc, List.length_append, Nat.add_assoc]
    rfl

/-- Where a scan stops: at the end of the text, or where no lexeme begins.  Then the error is that of the
place. -/
def Scan.StopsAt (scan : Scan) : List Char → Prop
  | [] => scan.error = none
  | c :: rest => Lexeme.isSkipped c = false ∧
    ∃ e, lexemeAt c rest = .error e ∧ scan.error = some (e.shift scan.cursor)

/-- A scan munches the text up to the place where it stops. -/
theorem exists_munchUpTo_of_scanFrom (found : List Token) (start : Nat) (text : List Char) :
    ∃ read rest tokens, text = read ++ rest ∧ MunchUpTo rest start read tokens ∧
      (scanFrom found start text).tokens = found.reverse ++ tokens ∧
      (scanFrom found start text).cursor = start + read.length ∧
      (scanFrom found start text).StopsAt rest := by
  induction found, start, text using scanFrom.induct with
  | case1 found start =>
    rw [scanFrom]
    exact ⟨[], [], [], rfl, .done, by simp, rfl, rfl⟩
  | case2 found start c text hskip ih =>
    rw [scanFrom, if_pos hskip]
    obtain ⟨read, rest, tokens, rfl, hmunch, htokens, hcursor, hstops⟩ := ih
    refine ⟨c :: read, rest, tokens, rfl, .skip (isSkipped_iff.1 hskip) hmunch, htokens, ?_, hstops⟩
    rw [hcursor, List.length_cons, Nat.add_right_comm, Nat.add_assoc]
  | case3 found start c text hskip e herror =>
    rw [scanFrom, if_neg hskip]
    simp only [herror]
    refine ⟨[], c :: text, [], rfl, .done, by simp, rfl, ?_⟩
    exact ⟨by simpa using hskip, e, herror, rfl⟩
  | case4 found start c text hskip lexeme hok spelling ih =>
    rw [scanFrom, if_neg hskip]
    simp only [hok]
    obtain ⟨read, rest, tokens, hsplit, hmunch, htokens, hcursor, hstops⟩ := ih
    obtain ⟨hpos, hwidth⟩ := lexemeAt_width hok
    have hlongest := longestAt_of_lexemeAt hok
    have hlen : ((c :: text).take lexeme.width).length = lexeme.width := List.length_take_of_le hwidth
    have hdrop : (c :: text).drop lexeme.width = read ++ rest := by
      obtain ⟨n, hn⟩ : ∃ n, lexeme.width = n + 1 := ⟨lexeme.width - 1, by omega⟩
      rw [hn, Nat.add_sub_cancel] at hsplit
      rw [hn, List.drop_succ_cons, hsplit]
    have htext : c :: text = (c :: text).take lexeme.width ++ (read ++ rest) := by
      rw [← hdrop, List.take_append_drop]
    rw [← hlen] at hmunch
    refine ⟨(c :: text).take lexeme.width ++ read, rest, ⟨lexeme.kind, spelling, start⟩ :: tokens, ?_,
      .take (by rwa [← htext]) hmunch, ?_, ?_, hstops⟩
    · rw [List.append_assoc]
      exact htext
    · rw [htokens]
      simp
    · rw [hcursor, List.length_append, hlen, Nat.add_assoc]

/-- A munched text is scanned to its end, and the scan finds the same tokens. -/
theorem scanFrom_of_munch {start : Nat} {text : List Char} {tokens : List Token}
    (h : Munch start text tokens) (found : List Token) :
    scanFrom found start text = ⟨found.reverse ++ tokens, start + text.length, none⟩ := by
  have hscan := (munchUpTo_nil_iff.2 h).scanFrom_append found
  rw [List.append_nil, scanFrom, List.reverse_append, List.reverse_reverse] at hscan
  exact hscan

/-- A text that is scanned to its end is munched. -/
theorem munch_of_scanFrom {found : List Token} {start : Nat} {text : List Char}
    (h : (scanFrom found start text).error = none) :
    ∃ tokens, Munch start text tokens ∧
      (scanFrom found start text).tokens = found.reverse ++ tokens := by
  obtain ⟨read, rest, tokens, rfl, hmunch, htokens, _, hstops⟩ :=
    exists_munchUpTo_of_scanFrom found start text
  cases rest with
  | nil =>
    rw [List.append_nil] at htokens ⊢
    exact ⟨tokens, munchUpTo_nil_iff.1 hmunch, htokens⟩
  | cons c rest =>
    obtain ⟨_, e, _, herror⟩ := hstops
    rw [h] at herror
    cases herror

/-! ### Tokens that tile a text -/

/-- Does a place lie between the first character of a token and the one behind its last? -/
def Token.Covers (t : Token) (place : Int) : Prop :=
  t.position ≤ place ∧ place < t.position + t.lexeme.length

/-- The tokens tile a text whose first character has offset `start`. -/
structure Tiles (start : Nat) (text : List Char) (tokens : List Token) : Prop where
  /-- Each lexeme is what the text has at the position of its token. -/
  spelled : ∀ t ∈ tokens, ∃ offset : Nat, t.position = ((start + offset : Nat) : Int) ∧
    offset + t.lexeme.length ≤ text.length ∧
    t.lexeme.toList = (text.drop offset).take t.lexeme.length
  /-- Only end marks are empty. -/
  nonempty : ∀ t ∈ tokens, t.kind ≠ .endMark → t.lexeme ≠ ""
  /-- Each token begins behind the end of every earlier one. -/
  ordered : tokens.Pairwise fun (t u : Token) =>
    t.position < u.position ∧ t.position + t.lexeme.length ≤ u.position
  /-- Nothing but blanks and line feeds is left out. -/
  covered : ∀ (i : Nat) (c : Char), text[i]? = some c →
    (∀ t ∈ tokens, ¬ t.Covers ((start + i : Nat) : Int)) → c = ' ' ∨ c = '\n'

namespace Tiles

theorem of_blank {start : Nat} {c : Char} (h : c = ' ' ∨ c = '\n') : Tiles start [c] [] where
  spelled := by simp
  nonempty := by simp
  ordered := .nil
  covered := by
    intro i d hd _
    have hmem : d ∈ [c] := List.mem_of_getElem? hd
    rw [List.mem_singleton] at hmem
    rwa [hmem]

theorem of_lexeme {start : Nat} {lexeme : List Char} {kind : TokenKind} (h : lexeme ≠ []) :
    Tiles start lexeme [⟨kind, String.ofList lexeme, start⟩] where
  spelled := by
    intro t ht
    rw [List.mem_singleton] at ht
    subst ht
    exact ⟨0, by simp, by simp, by simp⟩
  nonempty := by
    intro t ht _
    rw [List.mem_singleton] at ht
    subst ht
    simpa using h
  ordered := List.pairwise_singleton _ _
  covered := by
    intro i c hc hout
    have hi : i < lexeme.length := (List.getElem?_eq_some_iff.1 hc).1
    refine absurd ⟨?_, ?_⟩ (hout _ List.mem_cons_self)
    · show (start : Int) ≤ ((start + i : Nat) : Int)
      omega
    · show ((start + i : Nat) : Int) < (start : Int) + (String.ofList lexeme).length
      rw [String.length_ofList]
      omega

theorem of_endMark {start : Nat} : Tiles start [] [Token.endMark start] where
  spelled := by
    intro t ht
    rw [List.mem_singleton] at ht
    subst ht
    exact ⟨0, by simp [Token.endMark], by simp [Token.endMark], by simp [Token.endMark]⟩
  nonempty := by simp [Token.endMark]
  ordered := List.pairwise_singleton _ _
  covered := by simp

/-- Tilings of two neighbouring texts make one of both, unless an end mark gets in between. -/
theorem append {start : Nat} {text rest : List Char} {tokens later : List Token}
    (h : Tiles start text tokens) (hmark : ∀ t ∈ tokens, t.kind ≠ .endMark)
    (hlater : Tiles (start + text.length) rest later) :
    Tiles start (text ++ rest) (tokens ++ later) where
  spelled := by
    intro t ht
    rcases List.mem_append.1 ht with ht | ht
    · obtain ⟨offset, hposition, hinside, hlexeme⟩ := h.spelled t ht
      refine ⟨offset, hposition, ?_, ?_⟩
      · rw [List.length_append]
        omega
      · rw [List.drop_append_of_le_length (by omega),
          List.take_append_of_le_length (by rw [List.length_drop]; omega)]
        exact hlexeme
    · obtain ⟨offset, hposition, hinside, hlexeme⟩ := hlater.spelled t ht
      refine ⟨text.length + offset, ?_, ?_, ?_⟩
      · rw [hposition, Nat.add_assoc]
      · rw [List.length_append]
        omega
      · rw [List.drop_append, List.drop_eq_nil_of_le (by omega), List.nil_append,
          Nat.add_sub_cancel_left]
        exact hlexeme
  nonempty := by
    intro t ht
    rcases List.mem_append.1 ht with ht | ht
    · exact h.nonempty t ht
    · exact hlater.nonempty t ht
  ordered := by
    refine List.pairwise_append.2 ⟨h.ordered, hlater.ordered, fun t ht u hu => ?_⟩
    obtain ⟨i, hi, hinside, _⟩ := h.spelled t ht
    obtain ⟨j, hj, _, _⟩ := hlater.spelled u hu
    have hpos : 0 < t.lexeme.length :=
      Nat.pos_of_ne_zero fun hzero =>
        h.nonempty t ht (hmark t ht) (String.length_eq_zero_iff.1 hzero)
    rw [hi, hj]
    constructor <;> omega
  covered := by
    intro i c hc hout
    by_cases hi : i < text.length
    · rw [List.getElem?_append_left hi] at hc
      exact h.covered i c hc fun t ht => hout t (List.mem_append_left _ ht)
    · rw [List.getElem?_append_right (by omega)] at hc
      refine hlater.covered (i - text.length) c hc fun t ht => ?_
      have hplace : start + text.length + (i - text.length) = start + i := by omega
      rw [hplace]
      exact hout t (List.mem_append_right _ ht)

end Tiles

/-! ### The tokens of a text -/

theorem Legal.kind_ne_endMark {lexeme : List Char} {kind : TokenKind} (h : Legal lexeme kind) :
    kind ≠ .endMark := by
  cases h with
  | sign spelling declared _ =>
    have hall : ∀ sign ∈ signs, sign.2 ≠ .endMark := by decide
    exact hall _ declared
  | word spelling declared _ =>
    have hall : ∀ word ∈ words, word.2 ≠ .endMark := by decide
    exact hall _ declared
  | name _ => decide

theorem Munch.legal {start : Nat} {text : List Char} {tokens : List Token}
    (h : Munch start text tokens) : ∀ t ∈ tokens, Legal t.lexeme.toList t.kind := by
  induction h with
  | done => simp
  | skip _ _ ih => exact ih
  | take longest _ ih =>
    intro t ht
    rcases List.mem_cons.1 ht with rfl | ht
    · simpa using longest.legal
    · exact ih t ht

theorem Munch.kind_ne_endMark {start : Nat} {text : List Char} {tokens : List Token}
    (h : Munch start text tokens) : ∀ t ∈ tokens, t.kind ≠ .endMark :=
  fun t ht => (h.legal t ht).kind_ne_endMark

/-- The tokens of a munched text tile it. -/
theorem Munch.tiles {start : Nat} {text : List Char} {tokens : List Token}
    (h : Munch start text tokens) : Tiles start text tokens := by
  induction h with
  | done => exact ⟨by simp, by simp, .nil, by simp⟩
  | skip blank _ ih => exact (Tiles.of_blank blank).append (by simp) ih
  | take longest _ ih =>
    refine (Tiles.of_lexeme longest.legal.ne_nil).append ?_ ih
    intro t ht
    rw [List.mem_singleton] at ht
    subst ht
    exact longest.legal.kind_ne_endMark

/-- A text that can be munched has its tokens, and an end mark behind them. -/
theorem lex_of_munch {source : String} {found : List Token} (h : Munch 0 source.toList found) :
    lex source = .ok (found ++ [Token.endMark source.length]) := by
  simp [lex, scanFrom_of_munch h]

/-- A text with tokens can be munched. -/
theorem munch_of_lex {source : String} {tokens : List Token} (h : lex source = .ok tokens) :
    ∃ found, Munch 0 source.toList found ∧ tokens = found ++ [Token.endMark source.length] := by
  unfold lex at h
  cases herror : (scanFrom [] 0 source.toList).error with
  | some e =>
    simp only [herror] at h
    cases h
  | none =>
    simp only [herror] at h
    obtain ⟨found, hmunch, htokens⟩ := munch_of_scanFrom herror
    rw [htokens] at h
    cases h
    exact ⟨found, hmunch, rfl⟩

/-- **Lexing is maximal munch.**  A text has tokens exactly if it is used up by skipping blanks and
line feeds and taking the longest legal lexeme again and again; its tokens are these lexemes with an
end mark behind them.  They tile the text, and there is no other end mark. -/
theorem lex_eq_ok_iff_munch (source : String) (tokens : List Token) :
    (lex source = .ok tokens ↔
      ∃ found, Munch 0 source.toList found ∧ tokens = found ++ [Token.endMark source.length]) ∧
    (lex source = .ok tokens → Tiles 0 source.toList tokens ∧
      ∃ found, tokens = found ++ [Token.endMark source.length] ∧
        ∀ t ∈ found, t.kind ≠ .endMark) := by
  refine ⟨⟨munch_of_lex, ?_⟩, fun h => ?_⟩
  · rintro ⟨found, hmunch, rfl⟩
    exact lex_of_munch hmunch
  · obtain ⟨found, hmunch, rfl⟩ := munch_of_lex h
    refine ⟨?_, found, rfl, hmunch.kind_ne_endMark⟩
    have htiles := hmunch.tiles.append hmunch.kind_ne_endMark Tiles.of_endMark
    rwa [List.append_nil, Nat.zero_add, String.length_toList] at htiles

/-- Of two keywords that begin alike the longer is taken, and a small `v` begins no name. -/
theorem lex_munch_iffa :
    ∃ tokens, lex "iffa vI1\n" = .ok tokens ∧
      tokens.map Token.lexeme = ["iff", "a", "v", "I1", ""] ∧
      (∃ found, Munch 0 "iffa vI1\n".toList found ∧
        tokens = found ++ [Token.endMark "iffa vI1\n".length]) ∧
      Tiles 0 "iffa vI1\n".toList tokens := by
  have hlex : lex "iffa vI1\n" = .ok
      [⟨.connective .iff, "iff", 0⟩, ⟨.name, "a", 3⟩, ⟨.connective .disj, "v", 5⟩, ⟨.name, "I1", 6⟩,
        ⟨.endMark, "", 9⟩] := by
    decide +kernel
  exact ⟨_, hlex, rfl, (lex_eq_ok_iff_munch _ _).1.1 hlex, ((lex_eq_ok_iff_munch _ _).2 hlex).1⟩

end Propositional
