import Propositional.Text.Place
import Propositional.Token.Lexeme

/-!
# Splitting a text into tokens

* `scanFrom` — the lexemes of a text one after the other, as far as they go;
* `lex` — the tokens of a text with an end mark behind them, or the first error;
* `Scanner` — a text, a cursor in it and the tokens found so far, with the single steps `seek`,
  `emit`, `readName`, `readArrow`, `readWord` and the step `run` to the end of the text.

Each lexeme that a run reads moves the cursor on (`cursor_lt_of_advance`), so a run from a negative
cursor reaches the beginning of the text and goes on from there.
-/

namespace Propositional

/-! ### All lexemes -/

/-- What a scan has found: the tokens, where it stands, and the error that stopped it. -/
structure Scan where
  tokens : List Token
  cursor : Nat
  error : Option LexError
  deriving DecidableEq, Repr

/-- Scan a text whose first character has offset `start`.  `found` holds the tokens found before,
the latest first. -/
def scanFrom (found : List Token) (start : Nat) : List Char → Scan
  | [] => ⟨found.reverse, start, none⟩
  | c :: rest =>
    if Lexeme.isSkipped c then scanFrom found (start + 1) rest
    else
      match lexemeAt c rest with
      | .error e => ⟨found.reverse, start, some (e.shift start)⟩
      | .ok lexeme =>
        let spelling := String.ofList ((c :: rest).take lexeme.width)
        scanFrom (⟨lexeme.kind, spelling, start⟩ :: found) (start + lexeme.width)
          (rest.drop (lexeme.width - 1))
termination_by text => text.length
decreasing_by all_goals simp only [List.length_drop, List.length_cons]; omega

/-- The tokens of a text, ended by an end mark at its length. -/
def lex (source : String) : Except LexError (List Token) :=
  let scan := scanFrom [] 0 source.toList
  match scan.error with
  | some e => .error e
  | none => .ok (scan.tokens ++ [Token.endMark source.length])

/-! ### Single steps -/

/-- A text that is being split, with the cursor and the tokens found so far.  The cursor may be set
to any place: behind the end of the text nothing is read, and a negative cursor counts from the end. -/
structure Scanner where
  source : List Char
  cursor : Int
  tokens : List Token
  deriving DecidableEq, Repr

/-- Why a step of a scanner fails. -/
inductive StepError where
  /-- No character stands at the cursor. -/
  | outside
  /-- The character at the cursor does not begin what the step reads. -/
  | wrongStart
  /-- The text is in error. -/
  | lex (e : LexError)
  deriving DecidableEq, Repr

namespace Scanner

/-- A scanner at the beginning of a text. -/
def ofSource (source : String) : Scanner := ⟨source.toList, 0, []⟩

/-- The text from the cursor on. -/
def ahead (s : Scanner) : List Char := Text.readFrom s.source s.cursor

/-- The text in which a keyword at the cursor may stand.  From a negative cursor on it has to end at a
negative place, that is, in front of the last character. -/
def wordsAhead (s : Scanner) : List Char :=
  if s.cursor < 0 then Text.between s.source s.cursor (-1) else s.ahead

/-- Set the cursor. -/
def seek (cursor : Int) (s : Scanner) : Scanner := { s with cursor }

/-- Add a token of a given kind and width and move the cursor behind it.  Its lexeme is what the text
has between the two places of the cursor. -/
def emit (kind : TokenKind) (width : Int) (s : Scanner) : Scanner :=
  let stop := s.cursor + width
  { s with
    cursor := stop
    tokens := s.tokens ++
      [⟨kind, String.ofList (Text.between s.source s.cursor stop), s.cursor⟩] }

/-- Add the token of a lexeme, or report its error at the place in the text. -/
def add (s : Scanner) : Except LexError Lexeme → Except StepError Scanner
  | .ok lexeme => .ok (s.emit lexeme.kind lexeme.width)
  | .error e => .error (.lex (e.shift s.cursor))

/-- The keyword at the cursor, or else the name there, which begins with `c`. -/
def word (s : Scanner) (c : Char) (rest : List Char) : Except LexError Lexeme :=
  match Lexeme.keyword? s.wordsAhead with
  | some lexeme => .ok lexeme
  | none => Lexeme.readName c rest

/-- Read a name at the cursor, whatever else could be read there. -/
def readName (s : Scanner) : Except StepError Scanner :=
  match s.ahead with
  | [] => .error .outside
  | c :: rest => s.add (Lexeme.readName c rest)

/-- Read an arrow at the cursor. -/
def readArrow (s : Scanner) : Except StepError Scanner :=
  match s.ahead with
  | [] => .error .outside
  | c :: rest =>
    match Lexeme.arrow? c with
    | none => .error .wrongStart
    | some (arrow, kind) => s.add (Lexeme.readArrow arrow kind (c :: rest))

/-- Read a keyword at the cursor, or else a name, if some keyword begins with that letter. -/
def readWord (s : Scanner) : Except StepError Scanner :=
  match s.ahead with
  | [] => .error .outside
  | c :: rest => if Lexeme.beginsKeyword c then s.add (s.word c rest) else .error .wrongStart

/-- Read or skip what stands at the cursor. -/
def advance (s : Scanner) : Except StepError Scanner :=
  match s.ahead with
  | [] => .error .outside
  | c :: rest =>
    if Lexeme.isSkipped c then .ok (s.seek (s.cursor + 1))
    else s.add (if Lexeme.beginsKeyword c then s.word c rest else lexemeAt c rest)

/-! ### The cursor advances -/

theorem word_width {s : Scanner} {c : Char} {rest : List Char} {lexeme : Lexeme}
    (h : s.word c rest = .ok lexeme) : 1 ≤ lexeme.width := by
  unfold word at h
  split at h
  · rename_i hkeyword
    cases h
    exact (Lexeme.keyword?_width hkeyword).1
  · exact (Lexeme.readName_width h).1

theorem cursor_lt_of_add {s t : Scanner} {found : Except LexError Lexeme}
    (hwidth : ∀ lexeme, found = .ok lexeme → 1 ≤ lexeme.width) (h : s.add found = .ok t) :
    s.cursor < t.cursor := by
  cases found with
  | error e => cases h
  | ok lexeme =>
    cases h
    have := hwidth lexeme rfl
    show s.cursor < s.cursor + lexeme.width
    omega

theorem cursor_lt_of_advance {s t : Scanner} (h : s.advance = .ok t) : s.cursor < t.cursor := by
  unfold advance at h
  split at h
  · cases h
  · split at h
    · cases h
      show s.cursor < s.cursor + 1
      omega
    · refine cursor_lt_of_add (fun lexeme hfound => ?_) h
      split at hfound
      · exact word_width hfound
      · exact (lexemeAt_width hfound).1

/-! ### All steps -/

/-- Read lexemes from a negative cursor on until it is negative no longer. -/
def enter (s : Scanner) : Scanner × Option StepError :=
  if s.cursor < 0 then
    match _h : s.advance with
    | .ok t => t.enter
    | .error e => (s, some e)
  else (s, none)
termination_by (-s.cursor).toNat
decreasing_by have := cursor_lt_of_advance _h; omega

/-- Read all lexemes from a cursor on that is not negative, and add the end mark. -/
def finish (s : Scanner) : Scanner × Option StepError :=
  let scan := scanFrom [] s.cursor.toNat s.ahead
  let mark := if scan.error.isNone then [Token.endMark s.source.length] else []
  ({ s with cursor := scan.cursor, tokens := s.tokens ++ scan.tokens ++ mark },
    scan.error.map .lex)

/-- Read all lexemes from the cursor on and add the end mark.  After an error the cursor stands
where no lexeme begins, and the tokens before that place are kept. -/
def run (s : Scanner) : Scanner × Option StepError :=
  match s.enter with
  | (t, none) => t.finish
  | failed => failed

end Scanner

end Propositional
