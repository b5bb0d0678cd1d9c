import Propositional.Proofs.Token.Joining

/-!
# Lexing is local

What stands behind a blank or a line feed has no influence on the tokens in front of it, and these have
none on what is read behind it, but for the positions.

* `scanFrom_blanks` — a scan passes over blanks and line feeds;
* `scanFrom_append_blanks`, `lex_append_blanks` — two texts with a gap between them are lexed each for
  itself;
* `munch_of_lex_append` — a token is the end mark, or it was munched;
* `FallsInto` — a text falls into two parts between its tokens; `exists_fallsInto_before`,
  `exists_fallsInto_behind` — it does in front of each token and behind it;
* `FallsInto.lex_spread` — a gap between the parts moves the tokens of the second one;
* `lex_local` — what a gap does to whole texts.
-/

namespace Propositional

/-! ### Two texts with a gap between them -/

/-- A scan passes over blanks and line feeds. -/
theorem scanFrom_blanks {blanks : List Char} (h : ∀ c ∈ blanks, c = ' ' ∨ c = '\n')
    (found : List Token) (start : Nat) (text : List Char) :
    scanFrom found start (blanks ++ text) = scanFrom found (start + blanks.length) text := by
  induction blanks generalizing start with
  | nil => rfl
  | cons c blanks ih =>
    have hskip : Lexeme.isSkipped c = true := isSkipped_iff.2 (h c List.mem_cons_self)
    rw [List.cons_append, scanFrom, if_pos hskip, ih fun d hd => h d (List.mem_cons_of_mem c hd),
      List.length_cons, Nat.add_right_comm, Nat.add_assoc]

/-- Behind a munched text and a gap a scan reads what stands there as if it stood alone. -/
theorem scanFrom_append_blanks {first text : List Char} {gap : String} {tokens : List Token}
    (h : Munch 0 first tokens) (hblank : IsBlank gap) (hgap : gap ≠ "") :
    scanFrom [] 0 (first ++ (gap.toList ++ text)) =
      (scanFrom [] 0 text).moved tokens (first.length + gap.length) := by
  have hupTo := h.munchUpTo (hblank.separated hgap text)
  rw [← String.length_toList, hupTo.scanFrom_append, scanFrom_blanks hblank, List.append_nil,
    Nat.zero_add, scanFrom_eq_moved, List.reverse_reverse]

/-- Two texts with a gap between them: the second is lexed as if it stood alone, and its tokens, or
its error, are moved. -/
theorem lex_append_blanks {first gap : String} {tokens : List Token} (h : lex first = .ok tokens)
    (hblank : IsBlank gap) (hgap : gap ≠ "") (text : String) :
    lex (first ++ gap ++ text) =
      match lex text with
      | .ok later => .ok (tokens.dropLast ++ later.map (Token.shift (first.length + gap.length)))
      | .error e => .error (e.shift (first.length + gap.length : Nat)) := by
  obtain ⟨found, hmunch, rfl⟩ := munch_of_lex h
  have hscan : scanFrom [] 0 (first.toList ++ (gap.toList ++ text.toList)) =
      (scanFrom [] 0 text.toList).moved found (first.length + gap.length) := by
    rw [scanFrom_append_blanks hmunch hblank hgap, String.length_toList]
  have hlength : (first ++ gap ++ text).length = text.length + (first.length + gap.length) := by
    rw [String.length_append, String.length_append, Nat.add_comm]
  rw [lex, lex, String.toList_append, String.toList_append, List.append_assoc, hscan, hlength,
    List.dropLast_concat]
  cases herror : (scanFrom [] 0 text.toList).error with
  | some e => simp only [Scan.moved, herror, Option.map_some]
  | none =>
    simp only [Scan.moved, herror, Option.map_none, List.map_append, List.append_assoc]
    rfl

/-! ### Gaps between tokens -/

/-- A text falls into two parts, and its tokens into those of the first part and those of the second, with
the end mark. -/
structure FallsInto (source front rest : String) (before after : List Token) : Prop where
  joined : source = front ++ rest
  munchFront : Munch 0 front.toList before
  munchRest : ∃ later, Munch front.length rest.toList later ∧
    after = later ++ [Token.endMark source.length]

/-- A gap between the parts moves the tokens of the second part, and the end mark. -/
theorem FallsInto.lex_append {source front rest gap : String} {before after : List Token}
    (h : FallsInto source front rest before after) (hblank : IsBlank gap) (hgap : gap ≠ "") :
    lex (front ++ gap ++ rest) = .ok (before ++ after.map (Token.shift gap.length)) := by
  obtain ⟨later, hlater, rfl⟩ := h.munchRest
  have hmoved : Munch (0 + front.toList.length) (gap.toList ++ rest.toList)
      (later.map (Token.shift gap.length)) := by
    refine .blanks hblank ?_
    rw [Nat.zero_add, String.length_toList, String.length_toList]
    exact hlater.shift gap.length
  have hmunch := h.munchFront.append (hblank.separated hgap rest.toList) hmoved
  rw [← String.toList_append, ← String.toList_append, ← String.append_assoc] at hmunch
  have hlength : (front ++ gap ++ rest).length = source.length + gap.length := by
    rw [h.joined, String.length_append, String.length_append, String.length_append, Nat.add_right_comm]
  have hmark : Token.endMark (front ++ gap ++ rest).length =
      Token.shift gap.length (Token.endMark source.length) := by
    rw [hlength, Token.endMark, Int.natCast_add]
    rfl
  rw [lex_of_munch hmunch, List.map_append, List.map_singleton, hmark, List.append_assoc]

/-- So does an empty gap, if the tokens are those of the whole text. -/
theorem FallsInto.lex_spread {source front rest gap : String} {before after : List Token}
    (h : FallsInto source front rest before after) (hlex : lex source = .ok (before ++ after))
    (hblank : IsBlank gap) :
    lex (front ++ gap ++ rest) = .ok (before ++ after.map (Token.shift gap.length)) := by
  by_cases hgap : gap = ""
  · have hnone : Token.shift "".length = id := by
      funext t
      exact congrArg (Token.mk t.kind t.lexeme) (Int.add_zero t.position)
    rw [hgap, String.append_empty, ← h.joined, hlex, hnone, List.map_id]
  · exact h.lex_append hblank hgap

/-- A token of a text is the end mark, or it was munched. -/
theorem munch_of_lex_append {source : String} {before after : List Token} {t : Token}
    (h : lex source = .ok (before ++ t :: after)) :
    (t = Token.endMark source.length ∧ after = [] ∧ Munch 0 source.toList before) ∨
      ∃ later, after = later ++ [Token.endMark source.length] ∧
        Munch 0 source.toList (before ++ t :: later) := by
  obtain ⟨found, hmunch, hfound⟩ := munch_of_lex h
  rcases List.eq_nil_or_concat after with rfl | ⟨later, mark, rfl⟩
  · obtain ⟨rfl, hmark⟩ := List.append_inj' hfound rfl
    exact .inl ⟨(List.cons.inj hmark).1, rfl, hmunch⟩
  · rw [List.concat_eq_append, ← List.cons_append, ← List.append_assoc] at hfound
    obtain ⟨rfl, hmark⟩ := List.append_inj' hfound rfl
    exact .inr ⟨later, by rw [List.concat_eq_append, hmark], hmunch⟩

/-- A text falls apart in front of each token, the end mark included. -/
theorem exists_fallsInto_before {source : String} {before after : List Token} {t : Token}
    (h : lex source = .ok (before ++ t :: after)) :
    ∃ front rest : String, FallsInto source front rest before (t :: after) ∧
      (front.length : Int) = t.position := by
  rcases munch_of_lex_append h with ⟨rfl, rfl, hmunch⟩ | ⟨later, rfl, hmunch⟩
  · exact ⟨source, "", ⟨by simp, hmunch, [], .done, rfl⟩, rfl⟩
  · obtain ⟨front, lexeme, behind, htext, htoken, hlongest, hfront, -, hbehind⟩ := hmunch.split
    rw [Nat.zero_add] at htoken hbehind
    have hsource : source = String.ofList front ++ String.ofList (lexeme ++ behind) := by
      rw [← String.ofList_append, ← htext, String.ofList_toList]
    have hrest : Munch front.length (lexeme ++ behind) (t :: later) := by
      rw [htoken]
      exact .take hlongest hbehind
    refine ⟨_, _, ⟨hsource, by rwa [String.toList_ofList], t :: later, ?_, rfl⟩, ?_⟩
    · rwa [String.length_ofList, String.toList_ofList]
    · rw [String.length_ofList, htoken]

/-- A text falls apart behind each of its lexemes. -/
theorem exists_fallsInto_behind {source : String} {before after : List Token} {t : Token}
    (h : lex source = .ok (before ++ t :: after)) (hkind : t.kind ≠ .endMark) :
    ∃ front rest : String, FallsInto source front rest (before ++ [t]) after ∧
      (front.length : Int) = t.position + t.lexeme.length := by
  rcases munch_of_lex_append h with ⟨rfl, rfl, hmunch⟩ | ⟨later, rfl, hmunch⟩
  · exact absurd rfl hkind
  · obtain ⟨front, lexeme, behind, htext, htoken, -, -, hread, hbehind⟩ := hmunch.split
    rw [Nat.zero_add] at htoken hbehind
    have hsource : source = String.ofList (front ++ lexeme) ++ String.ofList behind := by
      rw [← String.ofList_append, List.append_assoc, ← htext, String.ofList_toList]
    refine ⟨_, _, ⟨hsource, by rwa [String.toList_ofList], later, ?_, rfl⟩, ?_⟩
    · rwa [String.length_ofList, String.toList_ofList, List.length_append]
    · rw [String.length_ofList, htoken, List.length_append, String.length_ofList, Int.natCast_add]

/-! ### Whole texts -/

/-- Nothing is written where the text ends. -/
theorem lexeme_eq_empty {source : String} {before after : List Token} {t : Token}
    (h : lex source = .ok (before ++ t :: after)) (hmark : t.kind = .endMark) : t.lexeme = "" := by
  rcases munch_of_lex_append h with ⟨rfl, -, -⟩ | ⟨later, -, hmunch⟩
  · rfl
  · exact absurd hmark (hmunch.kind_ne_endMark t (List.mem_append_right before List.mem_cons_self))

/-- **Lexing is local.**  Two texts with a gap of blanks and line feeds between them are lexed each for
itself: behind the tokens of the first text, without its end mark, come those of the second, moved, or
its error is reported, moved as well.  And a gap in front of a token of a text or behind it changes nothing
but the positions of what stands behind the gap; behind the end mark there is no more than in front of it. -/
theorem lex_local (gap : String) (blank : IsBlank gap) :
    (gap ≠ "" → ∀ (first second : String) (tokens : List Token), lex first = .ok tokens →
      lex (first ++ gap ++ second) =
        match lex second with
        | .ok later => .ok (tokens.dropLast ++ later.map (Token.shift (first.length + gap.length)))
        | .error e => .error (e.shift (first.length + gap.length : Nat))) ∧
    ∀ (source : String) (before after : List Token) (t : Token),
      lex source = .ok (before ++ t :: after) →
      (∃ front rest : String, source = front ++ rest ∧ (front.length : Int) = t.position ∧
        lex (front ++ gap ++ rest) = .ok (before ++ (t :: after).map (Token.shift gap.length))) ∧
      ∃ front rest : String, source = front ++ rest ∧
        (front.length : Int) = t.position + t.lexeme.length ∧
        lex (front ++ gap ++ rest) =
          .ok (before ++ (if t.kind = .endMark then t.shift gap.length else t) ::
            after.map (Token.shift gap.length)) := by
  refine ⟨fun hgap first second tokens h => lex_append_blanks h blank hgap second,
    fun source before after t h => ?_⟩
  obtain ⟨front, rest, hfalls, hplace⟩ := exists_fallsInto_before h
  have hbefore := hfalls.lex_spread h blank
  refine ⟨⟨front, rest, hfalls.joined, hplace, hbefore⟩, ?_⟩
  split
  next hmark =>
    have hempty := lexeme_eq_empty h hmark
    refine ⟨front, rest, hfalls.joined, ?_, hbefore⟩
    rw [hplace, hempty, String.length_empty, Int.natCast_zero, Int.add_zero]
  next hkind =>
    obtain ⟨front, rest, hfalls, hplace⟩ := exists_fallsInto_behind h hkind
    have hjoined : before ++ t :: after = before ++ [t] ++ after := by
      rw [List.append_assoc, List.singleton_append]
    rw [hjoined] at h
    have hbehind := hfalls.lex_spread h blank
    rw [List.append_assoc, List.singleton_append] at hbehind
    exact ⟨front, rest, hfalls.joined, hplace, hbehind⟩

/-- Behind a gap the keyword is read anew, and the faulty arrow is reported further on; a gap behind the
keyword tears it from nothing. -/
theorem lex_local_iffa :
    IsBlank " \n" ∧ lex "iffa" = .ok
      ([] ++ ⟨.connective .iff, "iff", 0⟩ :: [⟨.name, "a", 3⟩, ⟨.endMark, "", 4⟩]) ∧
    lex ("iffa" ++ " \n" ++ "<-q") = .error ⟨.mismatch 'q' "<->", 8⟩ ∧
    ∃ front rest : String, "iffa" = front ++ rest ∧ (front.length : Int) = 3 ∧
      lex (front ++ " \n" ++ rest) = .ok
        [⟨.connective .iff, "iff", 0⟩, ⟨.name, "a", 5⟩, ⟨.endMark, "", 6⟩] := by
  have hblank : IsBlank " \n" := by simp [IsBlank]
  have hlex : lex "iffa" = .ok
      ([] ++ ⟨.connective .iff, "iff", 0⟩ :: [⟨.name, "a", 3⟩, ⟨.endMark, "", 4⟩]) := by
    decide +kernel
  obtain ⟨hjoined, hspread⟩ := lex_local " \n" hblank
  refine ⟨hblank, hlex, ?_, (hspread "iffa" _ _ _ hlex).2⟩
  have hfails : lex "<-q" = .error ⟨.mismatch 'q' "<->", 2⟩ := by decide +kernel
  rw [hjoined (by decide) "iffa" "<-q" _ hlex, hfails]
  rfl

end Propositional
