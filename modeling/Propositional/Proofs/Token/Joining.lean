import Propositional.Proofs.Token.Munch

/-!
# Texts put together and cut apart

* `IsBlank` — a text of blanks and line feeds;
* `separators` — the characters that stand for themselves or for nothing, wherever they are;
  `Legal.eq_singleton_of_mem` — no longer lexeme contains one;
* `LongestAt.append` — in front of a separator the longest lexeme stays the longest;
  `LongestAt.of_prefix` — and it does where the text ends earlier, as long as all of it is left;
* `Munch.append` — so texts can be put together in front of a separator;
* `Munch.shift` — and each may stand anywhere; `Token.shift` moves the tokens;
* `Munch.split` — and a text falls apart at each of its tokens;
* `scanFrom_eq_moved` — what a scan reads depends neither on the place of the text nor on what was found
  before.
-/

namespace Propositional

/-! ### Separators -/

/-- A text of blanks and line feeds. -/
def IsBlank (text : String) : Prop := ∀ c ∈ text.toList, c = ' ' ∨ c = '\n'

/-- The characters that stand for themselves or for nothing, wherever they are. -/
def separators : List Char := [' ', '\n', '(', ')']

/-- A text is empty or begins with a separator. -/
def Separated (rest : List Char) : Prop := ∀ c ∈ rest.head?, c ∈ separators

theorem separated_cons {c : Char} (h : c ∈ separators) (rest : List Char) :
    Separated (c :: rest) := by
  intro d hd
  cases hd
  exact h

theorem separated_blanks {blanks rest : List Char} (hblanks : ∀ c ∈ blanks, c = ' ' ∨ c = '\n')
    (hrest : blanks = [] → Separated rest) : Separated (blanks ++ rest) := by
  cases blanks with
  | nil => exact hrest rfl
  | cons c blanks =>
    refine separated_cons ?_ _
    rcases hblanks c List.mem_cons_self with rfl | rfl <;> decide

theorem IsBlank.separated {gap : String} (h : IsBlank gap) (hgap : gap ≠ "") (rest : List Char) :
    Separated (gap.toList ++ rest) :=
  separated_blanks h fun hnil => absurd (String.toList_eq_nil_iff.1 hnil) hgap

/-- A lexeme that contains a separator consists of it. -/
theorem Legal.eq_singleton_of_mem {lexeme : List Char} {kind : TokenKind} {c : Char}
    (h : Legal lexeme kind) (hc : c ∈ separators) (hmem : c ∈ lexeme) : lexeme = [c] := by
  cases h with
  | sign spelling declared written =>
    have hall : signs.all (fun sign =>
        separators.all fun d => decide (d ∈ sign.1.toList → sign.1.toList = [d])) = true := by
      decide
    have hsign := List.all_eq_true.1 (List.all_eq_true.1 hall _ declared) c hc
    rw [written] at hmem ⊢
    exact of_decide_eq_true hsign hmem
  | word spelling declared written =>
    have hall : words.all (fun word =>
        separators.all fun d => decide (d.toLower ∉ word.1.toList)) = true := by
      decide
    have hword := List.all_eq_true.1 (List.all_eq_true.1 hall _ declared) c hc
    have hlower := List.mem_map_of_mem (f := Char.toLower) hmem
    rw [written] at hlower
    exact absurd hlower (of_decide_eq_true hword)
  | name written =>
    have hall : separators.all (fun d => !Text.isLetter d && !d.isDigit) = true := by decide
    obtain ⟨hletter, hdigit⟩ : Text.isLetter c = false ∧ c.isDigit = false := by
      simpa using List.all_eq_true.1 hall c hc
    cases lexeme with
    | nil => exact written.elim
    | cons first digits =>
      rcases List.mem_cons.1 hmem with rfl | hin
      · rw [written.1] at hletter
        cases hletter
      · rw [written.2.2 c hin] at hdigit
        cases hdigit

/-! ### Longest lexemes -/

/-- A legal lexeme is the longest of its own characters. -/
theorem Legal.longestAt_self {lexeme : List Char} {kind : TokenKind} (h : Legal lexeme kind) :
    LongestAt lexeme lexeme kind :=
  ⟨h, List.prefix_refl lexeme, fun _ hother => hother.length_le⟩

namespace LongestAt

variable {text lexeme : List Char} {kind : TokenKind}

/-- In front of a separator the longest lexeme stays the longest. -/
theorem append (h : LongestAt text lexeme kind) {rest : List Char} (hrest : Separated rest) :
    LongestAt (text ++ rest) lexeme kind where
  legal := h.legal
  atHead := h.atHead.trans (List.prefix_append text rest)
  longest := by
    intro other otherKind hlegal hhead
    rcases Nat.lt_or_ge text.length other.length with hlong | hshort
    · -- a lexeme that is longer than the text contains the separator, and then there is no text
      obtain ⟨tail, rfl⟩ :=
        List.prefix_of_prefix_length_le (List.prefix_append text rest) hhead (Nat.le_of_lt hlong)
      cases tail with
      | nil => simp at hlong
      | cons c tail =>
        obtain ⟨later, rfl⟩ := (List.prefix_append_right_inj text).1 hhead
        have hsingle := hlegal.eq_singleton_of_mem (hrest c rfl)
          (List.mem_append_right text List.mem_cons_self)
        have hlength := congrArg List.length hsingle
        have hpos := List.length_pos_iff.2 h.legal.ne_nil
        have hinside := h.atHead.length_le
        simp only [List.length_append, List.length_cons, List.length_nil] at hlength
        omega
    · exact h.longest hlegal
        (List.prefix_of_prefix_length_le hhead (List.prefix_append text rest) hshort)

/-- Where the text ends earlier, the longest lexeme stays the longest, as long as all of it is left. -/
theorem of_prefix (h : LongestAt text lexeme kind) {shorter : List Char} (hshorter : shorter <+: text)
    (hhead : lexeme <+: shorter) : LongestAt shorter lexeme kind :=
  ⟨h.legal, hhead, fun hlegal hother => h.longest hlegal (hother.trans hshorter)⟩

end LongestAt

/-- In front of a separator a legal lexeme is the longest. -/
theorem Legal.longestAt {lexeme rest : List Char} {kind : TokenKind} (h : Legal lexeme kind)
    (hrest : Separated rest) : LongestAt (lexeme ++ rest) lexeme kind :=
  h.longestAt_self.append hrest

/-! ### Whole texts -/

/-- A token that stands a number of characters further on. -/
def Token.shift (offset : Nat) (t : Token) : Token := { t with position := t.position + offset }

namespace Munch

variable {start : Nat} {text rest : List Char} {tokens later : List Token}

/-- Texts can be put together in front of a separator. -/
theorem append (h : Munch start text tokens) (hrest : Separated rest)
    (hlater : Munch (start + text.length) rest later) :
    Munch start (text ++ rest) (tokens ++ later) := by
  induction h with
  | done => exact hlater
  | @skip start c text tokens blank _ ih =>
    refine .skip blank (ih ?_)
    have hlength : start + 1 + text.length = start + (c :: text).length := by
      rw [List.length_cons]
      omega
    rwa [hlength]
  | @take start lexeme text kind tokens longest _ ih =>
    have hlonger := longest.append hrest
    rw [List.append_assoc] at hlonger ⊢
    refine .take hlonger (ih ?_)
    rwa [Nat.add_assoc, ← List.length_append]

/-- A text may stand a number of characters further on. -/
theorem shift (h : Munch start text tokens) (offset : Nat) :
    Munch (start + offset) text (tokens.map (Token.shift offset)) := by
  induction h with
  | done => exact .done
  | @skip start c text tokens blank _ ih =>
    refine .skip blank ?_
    rwa [Nat.add_right_comm]
  | @take start lexeme text kind tokens longest _ ih =>
    refine .take longest ?_
    rwa [Nat.add_right_comm]

/-- A legal lexeme may be put in front of a separator. -/
theorem lexeme {lexeme : List Char} {kind : TokenKind} (h : Legal lexeme kind)
    (hrest : Separated rest) (hlater : Munch (start + lexeme.length) rest later) :
    Munch start (lexeme ++ rest) (⟨kind, String.ofList lexeme, start⟩ :: later) :=
  .take (h.longestAt hrest) hlater

/-- Blanks and line feeds may be put in front of a text. -/
theorem blanks {blanks : List Char} (h : ∀ c ∈ blanks, c = ' ' ∨ c = '\n')
    (hlater : Munch (start + blanks.length) rest later) : Munch start (blanks ++ rest) later := by
  induction blanks generalizing start with
  | nil => exact hlater
  | cons c blanks ih =>
    refine .skip (h c List.mem_cons_self) (ih (fun d hd => h d (List.mem_cons_of_mem c hd)) ?_)
    rw [List.length_cons] at hlater
    rwa [Nat.add_assoc, Nat.add_comm 1]

/-- A text falls apart at each of its tokens: into what stands in front of it, its lexeme, and what
stands behind it. -/
theorem split {u : List Token} {t : Token} (h : Munch start text (u ++ t :: later)) :
    ∃ before lexeme behind : List Char, text = before ++ (lexeme ++ behind) ∧
      t = ⟨t.kind, String.ofList lexeme, (start + before.length : Nat)⟩ ∧
      LongestAt (lexeme ++ behind) lexeme t.kind ∧
      Munch start before u ∧ Munch start (before ++ lexeme) (u ++ [t]) ∧
      Munch (start + before.length + lexeme.length) behind later := by
  generalize htokens : u ++ t :: later = tokens at h
  induction h generalizing u with
  | done => exact absurd htokens (by simp)
  | @skip start c text tokens blank _ ih =>
    obtain ⟨before, lexeme, behind, rfl, hposition, hlongest, hbefore, hread, hbehind⟩ := ih htokens
    have hplace : start + 1 + before.length = start + (c :: before).length := by
      rw [List.length_cons, Nat.add_right_comm, Nat.add_assoc]
    rw [hplace] at hposition hbehind
    exact ⟨c :: before, lexeme, behind, rfl, hposition, hlongest, .skip blank hbefore,
      .skip blank hread, hbehind⟩
  | @take start lexeme text kind tokens longest hmunch ih =>
    cases u with
    | nil =>
      cases htokens
      have hread : Munch start (lexeme ++ []) [⟨kind, String.ofList lexeme, start⟩] :=
        .take (longest.legal.longestAt (by simp [Separated])) .done
      rw [List.append_nil] at hread
      exact ⟨[], lexeme, text, rfl, rfl, longest, .done, hread, hmunch⟩
    | cons first u =>
      obtain ⟨rfl, hlater⟩ := List.cons.inj htokens
      obtain ⟨before, spelling, behind, rfl, hposition, hlongest, hbefore, hread, hbehind⟩ := ih hlater
      have hplace : start + lexeme.length + before.length = start + (lexeme ++ before).length := by
        rw [List.length_append, Nat.add_assoc]
      rw [hplace] at hposition hbehind
      -- the first lexeme stays the longest wherever the text behind it ends
      have hfirst (shorter : List Char) (hshorter : shorter <+: before ++ (spelling ++ behind)) :
          LongestAt (lexeme ++ shorter) lexeme kind :=
        longest.of_prefix ((List.prefix_append_right_inj lexeme).2 hshorter) (List.prefix_append _ _)
      have hspelled : before ++ spelling <+: before ++ (spelling ++ behind) :=
        (List.prefix_append_right_inj before).2 (List.prefix_append _ _)
      refine ⟨lexeme ++ before, spelling, behind, by rw [List.append_assoc], hposition, hlongest,
        .take (hfirst before (List.prefix_append _ _)) hbefore, ?_, hbehind⟩
      rw [List.append_assoc]
      exact .take (hfirst (before ++ spelling) hspelled) hread

/-- In front of a separator nothing changes. -/
theorem munchUpTo (h : Munch start text tokens) (hrest : Separated rest) :
    MunchUpTo rest start text tokens := by
  induction h with
  | done => exact .done
  | skip blank _ ih => exact .skip blank ih
  | take longest _ ih =>
    have hlonger := longest.append hrest
    rw [List.append_assoc] at hlonger
    exact .take hlonger ih

end Munch

/-- Where the text ends earlier, nothing changes in front of its end. -/
theorem MunchUpTo.munch {start : Nat} {text rest : List Char} {tokens : List Token}
    (h : MunchUpTo rest start text tokens) : Munch start text tokens := by
  induction h with
  | done => exact .done
  | skip blank _ ih => exact .skip blank ih
  | @take start lexeme text kind tokens longest _ ih =>
    refine .take (longest.of_prefix ?_ (List.prefix_append _ _)) ih
    exact (List.prefix_append_right_inj lexeme).2 (List.prefix_append text rest)

/-! ### Scans that begin elsewhere -/

/-- What a scan gives where the text stands a number of characters further on and other tokens were found
before. -/
def Scan.moved (earlier : List Token) (offset : Nat) (scan : Scan) : Scan :=
  ⟨earlier ++ scan.tokens.map (Token.shift offset), scan.cursor + offset,
    scan.error.map (LexError.shift offset)⟩

/-- Neither the tokens found before nor the place of a text change what a scan reads. -/
theorem scanFrom_moved (earlier : List Token) (offset : Nat) (found : List Token) (start : Nat)
    (text : List Char) :
    scanFrom (found.map (Token.shift offset) ++ earlier) (start + offset) text =
      (scanFrom found start text).moved earlier.reverse offset := by
  induction found, start, text using scanFrom.induct with
  | case1 found start =>
    rw [scanFrom, scanFrom]
    simp [Scan.moved]
  | case2 found start c rest hskip ih =>
    rw [scanFrom, if_pos hskip, Nat.add_right_comm, ih, scanFrom, if_pos hskip]
  | case3 found start c rest hskip e herror =>
    rw [scanFrom, if_neg hskip, scanFrom, if_neg hskip]
    simp only [herror, Scan.moved, Option.map_some, LexError.shift]
    congr 1
    · simp
    · rw [Int.natCast_add, Int.add_comm (start : Int), Int.add_assoc]
  | case4 found start c rest hskip lexeme hok spelling ih =>
    have hshift : (⟨lexeme.kind, spelling, ((start + offset : Nat) : Int)⟩ : Token) ::
        (found.map (Token.shift offset) ++ earlier) =
          (⟨lexeme.kind, spelling, start⟩ :: found).map (Token.shift offset) ++ earlier := by
      rw [List.map_cons, List.cons_append, Token.shift, Int.natCast_add]
    rw [scanFrom, if_neg hskip, scanFrom, if_neg hskip]
    simp only [hok]
    rw [hshift, Nat.add_right_comm, ih]

/-- So every scan is that of the text alone, moved. -/
theorem scanFrom_eq_moved (found : List Token) (start : Nat) (text : List Char) :
    scanFrom found start text = (scanFrom [] 0 text).moved found.reverse start := by
  have hmoved := scanFrom_moved found start [] 0 text
  rwa [List.map_nil, List.nil_append, Nat.zero_add] at hmoved

end Propositional
