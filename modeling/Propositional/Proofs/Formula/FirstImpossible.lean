import Mathlib
import Propositional.Proofs.Formula.Breaking
import Propositional.Proofs.Formula.Parsing

/-!
# Errors stand at the first impossible token

* `Sentence`, `Viable` — tokens that write a formula, and kinds with which such a sequence may begin;
* `ImpossibleAt` — the token at a place cannot stand there;
* `openParens` — the opening parentheses that are not closed yet, the innermost first;
* `ParseFault.beginning` — how the message of a fault begins, which tells the kind of the fault;
  `eq_unclosed_of_message`, `eq_tooDeep_of_message` — faults told by their messages;
* `Refused` — how strict reading of a whole formula fails, with what follows for the place, for the
  tokens before it and for lenient reading;
* `parse_error_first_impossible` — the error of a parse stands at the least place of an impossible
  token, and names the innermost open parenthesis.
-/

namespace Propositional

/-! ### Sentences and what they begin with -/

/-- The tokens write a formula. -/
def Sentence (w : List Token) : Prop := ∃ f, Derives .loosest w f

/-- A sentence begins with tokens of these kinds. -/
def Viable (kinds : List TokenKind) : Prop :=
  ∃ w : List Token, kinds <+: w.map Token.kind ∧ Sentence w

/-- Tokens are viable by their kinds exactly if they begin a sentence themselves. -/
theorem viable_map_kind_iff {w : List Token} :
    Viable (w.map Token.kind) ↔ ∃ later, Sentence (w ++ later) := by
  constructor
  · rintro ⟨v, hhead, f, hf⟩
    refine ⟨v.drop w.length, hf.of_map_kind ?_⟩
    have htake : v.map Token.kind = w.map Token.kind ++ (v.map Token.kind).drop w.length := by
      obtain ⟨rest, hrest⟩ := hhead
      rw [← hrest, List.drop_left' (by simp)]
    rw [List.map_append, List.map_drop]
    exact htake.symm
  · rintro ⟨later, hsentence⟩
    exact ⟨w ++ later, by rw [List.map_append]; exact List.prefix_append _ _, hsentence⟩

theorem Viable.of_prefix {kinds shorter : List TokenKind} (h : Viable kinds)
    (hshorter : shorter <+: kinds) : Viable shorter := by
  obtain ⟨w, hhead, hsentence⟩ := h
  exact ⟨w, hshorter.trans hhead, hsentence⟩

/-- The token at a place cannot stand there: it is an end mark behind something that is no sentence, or
another token with which no sentence goes on. -/
def ImpossibleAt (tokens : List Token) (i : Nat) : Prop :=
  ∃ t, tokens[i]? = some t ∧
    ((t.kind = .endMark ∧ ¬ Sentence (tokens.take i)) ∨
      (t.kind ≠ .endMark ∧ ¬ Viable ((tokens.take (i + 1)).map Token.kind)))

/-! ### Open parentheses -/

/-- Keep the opening parentheses that are not closed, the innermost first. -/
def trackParen (opened : List Token) (t : Token) : List Token :=
  if t.kind = .openParen then t :: opened
  else if t.kind = .closeParen then opened.tail
  else opened

/-- The opening parentheses that are not closed yet, the innermost first. -/
def openParens (w : List Token) : List Token := w.foldl trackParen []

theorem trackParen_open {t : Token} (h : t.kind = .openParen) (opened : List Token) :
    trackParen opened t = t :: opened := if_pos h

theorem trackParen_close {t : Token} (h : t.kind = .closeParen) (opened : List Token) :
    trackParen opened t = opened.tail := by
  rw [trackParen, if_neg (by simp [h]), if_pos h]

theorem trackParen_other {t : Token} (hopen : t.kind ≠ .openParen) (hclose : t.kind ≠ .closeParen)
    (opened : List Token) : trackParen opened t = opened := by
  rw [trackParen, if_neg hopen, if_neg hclose]

/-- What is derived closes all that it opens. -/
theorem Derives.foldl_trackParen {level : Level} {w : List Token} {f : Formula}
    (h : Derives level w f) (opened : List Token) : w.foldl trackParen opened = opened := by
  induction h generalizing opened with
  | const kind => exact trackParen_other (by simp [kind]) (by simp [kind]) opened
  | name kind => exact trackParen_other (by simp [kind]) (by simp [kind]) opened
  | group opens _ closes ih =>
    rw [List.foldl_cons, List.foldl_append, trackParen_open opens, ih, List.foldl_cons,
      trackParen_close closes]
    rfl
  | primary _ ih => exact ih opened
  | neg kind _ ih =>
    rw [List.foldl_cons, trackParen_other (by simp [kind]) (by simp [kind]), ih]
  | single _ ih => exact ih opened
  | fold _ kind _ ihl ihr =>
    rw [List.foldl_append, ihl, List.foldl_cons, trackParen_other (by simp [kind]) (by simp [kind]),
      ihr]

/-- The group that has to be closed at a break is the innermost open one. -/
theorem Breaks.head?_foldl_trackParen {level : Level} {w : List Token} {next : Option Token}
    {obstacle : Obstacle} (h : Breaks level w next obstacle) {opening : Token}
    (hobstacle : obstacle = .closing opening) (opened : List Token) :
    (w.foldl trackParen opened).head? = some opening := by
  induction h generalizing opened with
  | operand _ => cases hobstacle
  | inside opens _ ih =>
    rw [List.foldl_cons]
    exact ih hobstacle _
  | unclosed opens inner _ _ =>
    cases hobstacle
    rw [List.foldl_cons, trackParen_open opens, inner.foldl_trackParen]
    rfl
  | primary _ _ ih => exact ih hobstacle opened
  | neg _ _ ih =>
    rw [List.foldl_cons]
    exact ih hobstacle _
  | single _ ih => exact ih hobstacle opened
  | fold _ _ _ ih =>
    rw [List.foldl_append, List.foldl_cons]
    exact ih hobstacle _

/-! ### The wording of faults -/

/-- The first ten characters of a message, which tell the kind of the fault. -/
def ParseFault.beginning : ParseFault → String
  | missingEnd => "Token sequ"
  | operandExpected _ => "Expected v"
  | unclosed _ => "Expected '"
  | trailing _ => "Expected e"
  | tooDeep => "Formula ne"

theorem ParseFault.take_message (fault : ParseFault) :
    fault.message.toList.take 10 = fault.beginning.toList := by
  -- each wording is written out; what it names stands behind its beginning
  cases fault with
  | missingEnd => rfl
  | operandExpected found =>
    cases found with
    | none => rfl
    | some lexeme =>
      change ("Expected variable, literal or '(', found '" ++ lexeme ++ "'").toList.take 10 =
        "Expected v".toList
      rw [String.toList_append, String.toList_append, List.append_assoc,
        List.take_append_of_le_length (by decide)]
      decide
  | unclosed opening =>
    change ("Expected ')' to close '(' at position " ++ toString opening).toList.take 10 =
      "Expected '".toList
    rw [String.toList_append, List.take_append_of_le_length (by decide)]
    decide
  | trailing lexeme =>
    change ("Expected end of formula, found '" ++ lexeme ++ "'").toList.take 10 = "Expected e".toList
    rw [String.toList_append, String.toList_append, List.append_assoc,
      List.take_append_of_le_length (by decide)]
    decide
  | tooDeep => rfl

/-- Faults with the same message are of one kind. -/
theorem ParseFault.beginning_eq_of_message {fault other : ParseFault}
    (h : fault.message = other.message) : fault.beginning = other.beginning := by
  rw [← String.toList_inj, ← take_message, ← take_message, h]

/-- The message of an unclosed group tells which one it is. -/
theorem eq_unclosed_of_message {fault : ParseFault} {place : Int}
    (h : fault.message = "Expected ')' to close '(' at position " ++ toString place) :
    fault = .unclosed place := by
  have hkind : fault.beginning = (ParseFault.unclosed place).beginning :=
    ParseFault.beginning_eq_of_message h
  cases fault with
  | unclosed opening =>
    change "Expected ')' to close '(' at position " ++ toString opening = _ at h
    rw [← String.toList_inj, String.toList_append, String.toList_append,
      List.append_cancel_left_eq, String.toList_inj] at h
    rw [Int.repr_injective h]
  | _ => exact absurd hkind (by simp [ParseFault.beginning])

/-- The message of too deep nesting is that of no other fault. -/
theorem eq_tooDeep_of_message {fault : ParseFault} (h : fault.message = "Formula nested too deeply") :
    fault = .tooDeep := by
  have hkind : fault.beginning = ParseFault.tooDeep.beginning :=
    ParseFault.beginning_eq_of_message h
  cases fault with
  | tooDeep => rfl
  | _ => exact absurd hkind (by simp [ParseFault.beginning])

/-! ### How strict reading fails -/

/-- Strict reading of a whole formula takes the tokens and refuses what comes next, a token or the end
mark (`none`): it breaks off there, or the formula is complete before. -/
inductive Refused (stop : Token) (w : List Token) : Option Token → ParseError → Prop
  | broken {next : Option Token} {obstacle : Obstacle} (breaks : Breaks .loosest w next obstacle) :
      Refused stop w next (obstacle.error stop next)
  | trailing {t : Token} {f : Formula} (complete : Derives .loosest w f)
      (ends : t.kind.connective? = none) :
      Refused stop w (some t) ⟨.trailing t.lexeme, some t.position⟩

theorem exists_refused {stop : Token} {ts : List Token} {e : ParseError}
    (hnest : NestedWithin nestingLimit ts) (h : (readFormula stop true ts).result = .error e) :
    ∃ w next rest, ts = w ++ (next.toList ++ rest) ∧ (next = none → rest = []) ∧
      Refused stop w next e := by
  rcases hread : Level.loosest.read stop ts with ⟨e' | f, rest⟩
  · have hexplains : (Level.loosest.read stop).Explains stop .loosest (nestingLimit + 1) :=
      Level.reader_explains (expression_shortens stop nestingLimit)
        (expression_sound stop nestingLimit) (expression_explains stop nestingLimit) .loosest
    have heq : e' = e := by
      rw [readFormula, hread] at h
      simpa using h
    subst heq
    obtain ⟨w, next, obstacle, hts, hend, hbreaks, rfl⟩ :=
      hexplains ts e' rest (nestedWithin_iff_nestedBelow.1 hnest) hread
    exact ⟨w, next, rest, hts, hend, .broken hbreaks⟩
  · obtain ⟨w, hts, hw, _, hahead⟩ := exists_of_read hread
    rw [readFormula, hread] at h
    cases rest with
    | nil => cases h
    | cons t later =>
      cases h
      exact ⟨w, some t, later, hts, by simp, .trailing hw (hahead t rfl)⟩

namespace Refused

variable {stop : Token} {w : List Token} {next : Option Token} {e : ParseError}

theorem position (h : Refused stop w next e) : e.position = some (next.getD stop).position := by
  cases h with
  | @broken _ obstacle _ => cases obstacle <;> rfl
  | trailing _ _ => rfl

theorem viable (h : Refused stop w next e) : Viable (w.map Token.kind) := by
  rw [viable_map_kind_iff]
  cases h with
  | broken breaks => exact breaks.exists_derives
  | trailing complete _ => exact ⟨[], _, by rwa [List.append_nil]⟩

theorem not_sentence (h : Refused stop w none e) : ¬ Sentence w := by
  rintro ⟨f, hf⟩
  cases h with
  | broken breaks => exact breaks.not_derives f hf

theorem not_viable {t : Token} (h : Refused stop w (some t) e) :
    ¬ Viable ((w ++ [t]).map Token.kind) := by
  rw [viable_map_kind_iff]
  rintro ⟨later, f, hf⟩
  rw [List.append_assoc, List.singleton_append] at hf
  cases h with
  | broken breaks => exact breaks.not_derives_append later f hf
  | trailing complete ends =>
    -- the complete formula and the longer one would be two ways to end it
    have hstops : Stops .loosest (t :: later) :=
      stops_loosest_iff.2 fun s hs => by cases hs; exact ends
    obtain ⟨_, hrest, _⟩ :=
      complete.split_unique hstops hf (stops_nil .loosest) (List.append_nil _).symm
    cases hrest

variable {rest : List Token}

/-- Lenient reading fails alike, unless the formula is complete. -/
theorem lenient_error (h : Refused stop w next e) (hend : next = none → rest = [])
    (hnest : NestedWithin nestingLimit (w ++ (next.toList ++ rest))) (hw : ¬ Sentence w) :
    (readFormula stop false (w ++ (next.toList ++ rest))).result = .error e := by
  cases h with
  | broken breaks =>
    have hbelow := (nestedWithin_iff_nestedBelow.1 hnest).of_append_left
    have hread := breaks.reader_append stop hbelow hend
    rw [readFormula_lenient, Level.read, hread]
  | trailing complete _ => exact absurd ⟨_, complete⟩ hw

/-- If the formula is complete, lenient reading gives it. -/
theorem lenient_ok (h : Refused stop w next e)
    (hnest : NestedWithin nestingLimit (w ++ (next.toList ++ rest))) {f : Formula}
    (hf : Derives .loosest w f) :
    (readFormula stop false (w ++ (next.toList ++ rest))).result = .ok f := by
  cases h with
  | broken breaks => exact absurd hf (breaks.not_derives f)
  | @trailing t _ _ ends =>
    have hahead : NoConnectiveAhead (t :: rest) := fun s hs => by cases hs; exact ends
    rw [readFormula_lenient, result_eq_ok_iff]
    exact ⟨_, (read_eq_ok_iff hnest).2 ⟨w, rfl, hf, hahead⟩⟩

/-- The group that an error reports as unclosed is the innermost open one. -/
theorem head?_openParens (h : Refused stop w next e) {place : Int}
    (hfault : e.fault = .unclosed place) :
    (openParens w).head?.map Token.position = some place := by
  cases h with
  | @broken _ obstacle breaks =>
    cases obstacle with
    | operand => cases hfault
    | closing opening =>
      cases hfault
      rw [openParens, breaks.head?_foldl_trackParen rfl]
      rfl
  | trailing _ _ => cases hfault

end Refused

/-! ### Whole token sequences -/

/-- The place behind the tokens that were taken is the least impossible one. -/
theorem Refused.least_impossible {stop : Token} {w rest : List Token} {next : Option Token}
    {e : ParseError} (h : Refused stop w next e) (hend : next = none → rest = [])
    (hstop : stop.kind = .endMark) (hahead : ∀ t ∈ w ++ (next.toList ++ rest), t.kind ≠ .endMark)
    (later : List Token) :
    ImpossibleAt (w ++ (next.toList ++ rest) ++ stop :: later) w.length ∧
      ∀ j < w.length, ¬ ImpossibleAt (w ++ (next.toList ++ rest) ++ stop :: later) j := by
  constructor
  · cases next with
    | none =>
      rw [hend rfl]
      exact ⟨stop, by simp, .inl ⟨hstop, by simpa using h.not_sentence⟩⟩
    | some t =>
      refine ⟨t, by simp, .inr ⟨hahead t (by simp), ?_⟩⟩
      have htake : (w ++ ((some t).toList ++ rest) ++ stop :: later).take (w.length + 1) =
          w ++ [t] := by
        rw [List.append_assoc, List.take_length_add_append]
        rfl
      rw [htake]
      exact h.not_viable
  · rintro j hj ⟨t, ht, hcase⟩
    rw [List.append_assoc, List.getElem?_append_left hj] at ht
    rcases hcase with ⟨hkind, _⟩ | ⟨_, hviable⟩
    · exact hahead t (List.mem_append_left _ (List.mem_of_getElem? ht)) hkind
    · refine hviable (h.viable.of_prefix ?_)
      rw [List.append_assoc, List.take_append_of_le_length (by omega), List.map_take]
      exact List.take_prefix _ _

/-- **Errors stand at the first impossible token.**  With the nesting inside the limit, the error of a
strict parse has the position of the token at the least impossible place, and what stands before that
place is viable.  A lenient parse gives the same error, unless a sentence stands before that place,
and then its formula.  If the error says that a group is not closed, it is the innermost open one. -/
theorem parse_error_first_impossible {tokens : List Token} {e : ParseError}
    (hend : EndMarked tokens) (hnest : NestedWithin nestingLimit (tokensAhead tokens))
    (h : parse tokens true = .error e) :
    ∃ i t, tokens[i]? = some t ∧ e.position = some t.position ∧
      ImpossibleAt tokens i ∧ (∀ j < i, ¬ ImpossibleAt tokens j) ∧
      Viable ((tokens.take i).map Token.kind) ∧
      (¬ Sentence (tokens.take i) → parse tokens false = .error e) ∧
      (∀ f, Derives .loosest (tokens.take i) f → parse tokens false = .ok f) ∧
      ∀ place : Int,
        e.fault.message = "Expected ')' to close '(' at position " ++ toString place →
          (openParens (tokens.take i)).head?.map Token.position = some place := by
  obtain ⟨stop, later, htokens, hstop, hstream⟩ := hend.exists_stream
  rw [parse_of_ofTokens hstream] at h ⊢
  have hahead : ∀ t ∈ tokensAhead tokens, t.kind ≠ .endMark := kind_ne_endMark_of_mem_tokensAhead
  obtain ⟨w, next, rest, hsplit, hnone, hrefused⟩ := exists_refused hnest h
  rw [hsplit] at hnest hahead htokens ⊢
  have htake : tokens.take w.length = w := by
    rw [htokens, List.append_assoc, List.take_left]
  have hnext : tokens[w.length]? = some (next.getD stop) := by
    rw [htokens]
    cases next with
    | none => simp [hnone rfl]
    | some t => simp
  obtain ⟨himpossible, hleast⟩ := hrefused.least_impossible hnone hstop hahead later
  rw [← htokens] at himpossible hleast
  refine ⟨w.length, next.getD stop, hnext, hrefused.position, himpossible, hleast, ?_⟩
  rw [htake]
  exact ⟨hrefused.viable, hrefused.lenient_error hnone hnest, fun f => hrefused.lenient_ok hnest,
    fun place hmessage => hrefused.head?_openParens (eq_unclosed_of_message hmessage)⟩

/-- The inner group is closed, so the error at the token behind it names the outer parenthesis, and what
stands behind the first end mark plays no part. -/
theorem parse_error_first_impossible_outer :
    ∃ tokens : List Token,
      tokens.map Token.kind = [.openParen, .openParen, .name, .connective .conj, .name, .closeParen,
        .name, .endMark, .closeParen, .endMark] ∧
      EndMarked tokens ∧ NestedWithin nestingLimit (tokensAhead tokens) ∧
      parse tokens true = .error ⟨.unclosed 0, some 8⟩ ∧
      ∃ i t, tokens[i]? = some t ∧ t.position = 8 ∧ ImpossibleAt tokens i ∧
        (∀ j < i, ¬ ImpossibleAt tokens j) ∧ Viable ((tokens.take i).map Token.kind) ∧
        (openParens (tokens.take i)).head?.map Token.position = some 0 := by
  let tokens : List Token :=
    [⟨.openParen, "(", 0⟩, ⟨.openParen, "(", 1⟩, ⟨.name, "p", 2⟩, ⟨.connective .conj, "&", 4⟩,
      ⟨.name, "q", 6⟩, ⟨.closeParen, ")", 7⟩, ⟨.name, "r", 8⟩, ⟨.endMark, "", 9⟩,
      ⟨.closeParen, ")", 9⟩, ⟨.endMark, "", 10⟩]
  have hend : EndMarked tokens := ⟨⟨.endMark, "", 10⟩, rfl, rfl⟩
  have hnest : NestedWithin nestingLimit (tokensAhead tokens) :=
    nestedWithin_iff_nestedBelow.2 (NestedBelow.of_length_lt (by decide))
  have hparse : parse tokens true = .error ⟨.unclosed 0, some 8⟩ := by decide +kernel
  obtain ⟨i, t, ht, hposition, himpossible, hleast, hviable, _, _, hopen⟩ :=
    parse_error_first_impossible hend hnest hparse
  exact ⟨tokens, rfl, hend, hnest, hparse, i, t, ht, (Option.some.inj hposition).symm, himpossible,
    hleast, hviable, hopen 0 rfl⟩

end Propositional
