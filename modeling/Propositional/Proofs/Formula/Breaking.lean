import Propositional.Proofs.Formula.Reading

/-!
# Where reading breaks off

A reader fails at the first token that cannot stand where it does, or at the end mark.  What it has
read before that token is described here beside the grammar:

* `Obstacle` — what is missing at that place; `Obstacle.error` — the error that reports it;
* `Breaks` — the tokens that a level takes before it breaks off, the token at which it does, and what
  is missing there;
* `Reader.Explains`, `Level.reader_explains` — each failure of a reader is such a break;
* `Breaks.reader_append` — and each such break is a failure, whatever stands behind the token;
* `Breaks.exists_derives` — the tokens before a break begin something that is derived;
* `Breaks.not_derives`, `Breaks.not_derives_append` — they are not derived themselves, and nothing
  derived goes on with the token.
-/

namespace Propositional

/-- What is missing where reading breaks off. -/
inductive Obstacle where
  /-- No operand begins here. -/
  | operand
  /-- The group that this token opens has to be closed here. -/
  | closing (opening : Token)

/-- The error that reports an obstacle at a token, or at the end mark (`none`). -/
def Obstacle.error (stop : Token) (next : Option Token) : Obstacle → ParseError
  | operand => ⟨.operandExpected (next.map Token.lexeme), some (next.getD stop).position⟩
  | closing opening => ⟨.unclosed opening.position, some (next.getD stop).position⟩

/-- No obstacle is the depth of nesting. -/
theorem Obstacle.fault_error_ne_tooDeep (obstacle : Obstacle) (stop : Token) (next : Option Token) :
    (obstacle.error stop next).fault ≠ .tooDeep := by
  cases obstacle <;> simp [error]

/-- A level takes the tokens and breaks off in front of the token `next`, or at the end mark
(`none`).  The constructors follow the grammar: the part before the one that breaks off is derived. -/
inductive Breaks : Level → List Token → Option Token → Obstacle → Prop
  | operand {next : Option Token}
      (unfit : ∀ t ∈ next, Reader.beginsPrimary t.kind = false) : Breaks .primary [] next .operand
  | inside {opening : Token} {w : List Token} {next : Option Token} {obstacle : Obstacle}
      (opens : opening.kind = .openParen) (inner : Breaks .loosest w next obstacle) :
      Breaks .primary (opening :: w) next obstacle
  | unclosed {opening : Token} {w : List Token} {f : Formula} {next : Option Token}
      (opens : opening.kind = .openParen) (inner : Derives .loosest w f)
      (unfit : ∀ t ∈ next, t.kind ≠ .closeParen)
      (ends : Stops .loosest next.toList) : Breaks .primary (opening :: w) next (.closing opening)
  | primary {w : List Token} {next : Option Token} {obstacle : Obstacle}
      (operand : Breaks .primary w next obstacle)
      (unsigned : ∀ t ∈ (w ++ next.toList).head?, t.kind ≠ .negation) :
      Breaks .negation w next obstacle
  | neg {sign : Token} {w : List Token} {next : Option Token} {obstacle : Obstacle}
      (kind : sign.kind = .negation) (operand : Breaks .negation w next obstacle) :
      Breaks .negation (sign :: w) next obstacle
  | single {c : Connective} {w : List Token} {next : Option Token} {obstacle : Obstacle}
      (operand : Breaks c.operandLevel w next obstacle) : Breaks (.binary c) w next obstacle
  | fold {c : Connective} {u w : List Token} {sign : Token} {f : Formula} {next : Option Token}
      {obstacle : Obstacle} (left : Derives (.binary c) u f) (kind : sign.kind = .connective c)
      (right : Breaks c.operandLevel w next obstacle) :
      Breaks (.binary c) (u ++ sign :: w) next obstacle

/-! ### Failures are breaks -/

/-- Each failure of a reader on tokens with fewer than `depth` parentheses open at any place is a
break of a level: the tokens up to the break, the token at which it breaks off, and what is left. -/
def Reader.Explains (reader : Reader) (stop : Token) (level : Level) (depth : Nat) : Prop :=
  ∀ ts e rest, NestedBelow depth ts → reader ts = ⟨.error e, rest⟩ →
    ∃ w next obstacle, ts = w ++ (next.toList ++ rest) ∧ (next = none → rest = []) ∧
      Breaks level w next obstacle ∧ e = obstacle.error stop next

namespace NestedBelow

variable {depth : Nat} {w : List Token}

/-- Behind an opening parenthesis one level fewer may be open. -/
theorem of_open {opening : Token} (hopen : opening.kind = .openParen)
    (h : NestedBelow (depth + 1) (opening :: w)) : NestedBelow depth w := by
  intro v hv
  have hcount := h (opening :: v) (List.cons_prefix_cons.2 ⟨rfl, hv⟩)
  simp only [openCount_cons, closeCount_cons, hopen] at hcount
  simp at hcount
  omega

end NestedBelow

namespace Reader

variable {stop : Token} {inside operand : Reader} {c : Connective} {depth : Nat}

theorem close_fail {t : Token} (ht : t.kind ≠ .closeParen) (opening : Token) (inner : Formula)
    (ts : List Token) : close stop opening inner (t :: ts) =
      ⟨.error ((Obstacle.closing opening).error stop (some t)), ts⟩ := by
  rw [close, if_neg ht]
  rfl

/-- Without a negation sign in front the level of negations is that of primaries. -/
theorem negation_unsigned {ts : List Token} (h : ∀ t ∈ ts.head?, t.kind ≠ .negation) :
    negation stop inside ts = primary stop inside ts := by
  cases ts with
  | nil => rfl
  | cons t ts => exact negation_of_head (h t rfl) ts

theorem primary_explains (hsound : Sound inside .loosest depth)
    (h : Explains inside stop .loosest depth) :
    Explains (primary stop inside) stop .primary (depth + 1) := by
  intro ts e rest hnest hread
  cases ts with
  | nil =>
    cases hread
    exact ⟨[], none, .operand, rfl, fun _ => rfl, .operand (by simp), rfl⟩
  | cons t ts =>
    by_cases hopen : t.kind = .openParen
    · have hinner : NestedBelow depth ts := hnest.of_open hopen
      rcases heq : inside ts with ⟨e' | f, inRest⟩
      · rw [primary_group_fail hopen heq] at hread
        cases hread
        obtain ⟨w, next, obstacle, rfl, hend, hbreaks, rfl⟩ := h ts e rest hinner heq
        exact ⟨t :: w, next, obstacle, rfl, hend, .inside hopen hbreaks, rfl⟩
      · rw [primary_group hopen heq] at hread
        obtain ⟨w, rfl, hw, _, hstops⟩ := hsound ts f inRest heq
        cases inRest with
        | nil =>
          cases hread
          refine ⟨t :: w, none, .closing t, rfl, fun _ => rfl, ?_, rfl⟩
          exact .unclosed hopen hw (by simp) hstops
        | cons next later =>
          by_cases hclose : next.kind = .closeParen
          · rw [close_ok hclose] at hread
            cases hread
          · rw [close_fail hclose] at hread
            cases hread
            refine ⟨t :: w, some next, .closing t, rfl, by simp, ?_, rfl⟩
            exact .unclosed hopen hw (by simpa using hclose) hstops
    · cases hbegins : beginsPrimary t.kind with
      | true =>
        -- a constant or a name is read without fail
        cases hkind : t.kind <;> simp_all [beginsPrimary, primary]
      | false =>
        rw [primary_other hbegins] at hread
        cases hread
        exact ⟨[], some t, .operand, rfl, by simp, .operand (by simpa using hbegins), rfl⟩

theorem negation_explains (hsound : Sound inside .loosest depth)
    (h : Explains inside stop .loosest depth) :
    Explains (negation stop inside) stop .negation (depth + 1) := by
  intro ts
  induction ts with
  | nil =>
    intro e rest hnest hread
    cases hread
    exact ⟨[], none, .operand, rfl, fun _ => rfl, .primary (.operand (by simp)) (by simp), rfl⟩
  | cons t ts ih =>
    intro e rest hnest hread
    by_cases hsign : t.kind = .negation
    · have hlater : NestedBelow (depth + 1) ts :=
        (NestedBelow.cons_iff (by simp [hsign]) (by simp [hsign])).1 hnest
      rw [negation_sign hsign] at hread
      rcases heq : negation stop inside ts with ⟨e' | f, rest'⟩
      · rw [heq] at hread
        cases hread
        obtain ⟨w, next, obstacle, rfl, hend, hbreaks, rfl⟩ := ih e _ hlater heq
        exact ⟨t :: w, next, obstacle, rfl, hend, .neg hsign hbreaks, rfl⟩
      · rw [heq] at hread
        cases hread
    · rw [negation_of_head hsign] at hread
      obtain ⟨w, next, obstacle, hts, hend, hbreaks, rfl⟩ :=
        primary_explains hsound h _ e rest hnest hread
      refine ⟨w, next, obstacle, hts, hend, .primary hbreaks ?_, rfl⟩
      -- the head of the tokens is `t`, or there is nothing before the break
      intro s hs
      have hhead : (w ++ (next.toList ++ rest)).head? = some t := by rw [← hts]; rfl
      rw [← List.append_assoc, List.head?_append, Option.mem_def.1 hs] at hhead
      cases hhead
      exact hsign

/-- The part `u` of a chain has been read and gives `left`; a failure of what is read then is a break
behind both. -/
theorem goOn_explains (hshort : Shortens operand) (hsound : Sound operand c.operandLevel (depth + 1))
    (h : Explains operand stop c.operandLevel (depth + 1)) {ts u rest : List Token} {left : Formula}
    {e : ParseError} (hleft : Derives (.binary c) u left) (hnest : NestedBelow (depth + 1) ts)
    (hread : goOn c operand left ts = ⟨.error e, rest⟩) :
    ∃ w next obstacle, ts = w ++ (next.toList ++ rest) ∧ (next = none → rest = []) ∧
      Breaks (.binary c) (u ++ w) next obstacle ∧ e = obstacle.error stop next := by
  -- what comes before the break is derived, and grows by each operand that is read
  refine goOn_induction hshort (motive := fun left ts reading => ∀ u, Derives (.binary c) u left →
    NestedBelow (depth + 1) ts → ∀ e rest, reading = ⟨.error e, rest⟩ →
      ∃ w next obstacle, ts = w ++ (next.toList ++ rest) ∧ (next = none → rest = []) ∧
        Breaks (.binary c) (u ++ w) next obstacle ∧ e = obstacle.error stop next)
    ?done ?fail ?step left ts u hleft hnest e rest hread
  case done =>
    intro left ts _ u _ _ e rest hread
    cases hread
  case fail =>
    intro left t ts e' later ht heq u hleft hnest e rest hread
    cases hread
    have hlater : NestedBelow (depth + 1) ts :=
      (NestedBelow.cons_iff (by simp [ht]) (by simp [ht])).1 hnest
    obtain ⟨w, next, obstacle, rfl, hend, hbreaks, rfl⟩ := h ts e' later hlater heq
    exact ⟨t :: w, next, obstacle, rfl, hend, .fold hleft ht hbreaks, rfl⟩
  case step =>
    intro left t ts right later ht heq ih u hleft hnest e rest hread
    have hlater : NestedBelow (depth + 1) ts :=
      (NestedBelow.cons_iff (by simp [ht]) (by simp [ht])).1 hnest
    obtain ⟨v, rfl, hv, _, _⟩ := hsound ts right later heq
    obtain ⟨w, next, obstacle, rfl, hend, hbreaks, rfl⟩ :=
      ih _ (.fold hleft ht hv) (hlater.of_append_right hv.balanced) e rest hread
    exact ⟨t :: v ++ w, next, obstacle, by simp, hend, by simpa using hbreaks, rfl⟩

theorem chain_explains (hshort : Shortens operand) (hsound : Sound operand c.operandLevel (depth + 1))
    (h : Explains operand stop c.operandLevel (depth + 1)) :
    Explains (chain c operand) stop (.binary c) (depth + 1) := by
  intro ts e rest hnest hread
  rcases heq : operand ts with ⟨e' | first, later⟩
  · rw [chain_fail heq] at hread
    cases hread
    obtain ⟨w, next, obstacle, hts, hend, hbreaks, rfl⟩ := h ts e rest hnest heq
    exact ⟨w, next, obstacle, hts, hend, .single hbreaks, rfl⟩
  · rw [chain_ok heq] at hread
    obtain ⟨u, rfl, hu, _, _⟩ := hsound ts first later heq
    obtain ⟨w, next, obstacle, rfl, hend, hbreaks, rfl⟩ := goOn_explains hshort hsound h (.single hu)
      (hnest.of_append_right hu.balanced) hread
    exact ⟨u ++ w, next, obstacle, by simp, hend, hbreaks, rfl⟩

end Reader

theorem Level.reader_explains {stop : Token} {inside : Reader} {depth : Nat}
    (hshort : inside.Shortens) (hsound : inside.Sound .loosest depth)
    (h : inside.Explains stop .loosest depth) (level : Level) :
    (level.reader stop inside).Explains stop level (depth + 1) :=
  Level.reader_induction (motive := fun level reader => reader.Explains stop level (depth + 1))
    (Reader.primary_explains hsound h) (Reader.negation_explains hsound h)
    (fun c hoperand => Reader.chain_explains (Level.reader_shortens hshort c.operandLevel)
      (Level.reader_sound hshort hsound c.operandLevel) hoperand)
    level

/-- So a failure inside the limit is not for the depth of nesting. -/
theorem Reader.Explains.fault_ne_tooDeep {reader : Reader} {stop : Token} {level : Level} {depth : Nat}
    (h : reader.Explains stop level depth) {ts rest : List Token} {e : ParseError}
    (hnest : NestedBelow depth ts) (hread : reader ts = ⟨.error e, rest⟩) : e.fault ≠ .tooDeep := by
  obtain ⟨_, next, obstacle, _, _, _, rfl⟩ := h ts e rest hnest hread
  exact obstacle.fault_error_ne_tooDeep stop next

theorem expression_explains (stop : Token) (depth : Nat) :
    (expression stop depth).Explains stop .loosest depth := by
  induction depth with
  | zero =>
    intro ts e rest hnest _
    exact absurd hnest.pos (Nat.lt_irrefl 0)
  | succ depth ih =>
    exact Level.reader_explains (expression_shortens stop depth) (expression_sound stop depth) ih
      .loosest

/-! ### Breaks are failures -/

namespace Breaks

variable {level : Level} {w : List Token} {next : Option Token} {obstacle : Obstacle}

/-- A reader fails at a break, whatever stands behind the token at which it breaks off. -/
theorem reader_append (h : Breaks level w next obstacle) (stop : Token) {depth : Nat}
    {rest : List Token} (hnest : NestedBelow (depth + 1) w) (hend : next = none → rest = []) :
    level.reader stop (expression stop depth) (w ++ (next.toList ++ rest)) =
      ⟨.error (obstacle.error stop next), rest⟩ := by
  induction h generalizing depth rest with
  | @operand next unfit =>
    cases next with
    | none =>
      rw [hend rfl]
      rfl
    | some t => exact Reader.primary_other (unfit t rfl) rest
  | @inside opening w next obstacle opens inner ih =>
    have hinner : NestedBelow depth w := hnest.of_open opens
    obtain ⟨deeper, rfl⟩ : ∃ deeper, depth = deeper + 1 := ⟨depth - 1, by have := hinner.pos; omega⟩
    exact Reader.primary_group_fail opens (ih hinner hend)
  | @unclosed opening w f next opens inner unfit ends =>
    have hinner : NestedBelow depth w := hnest.of_open opens
    obtain ⟨deeper, rfl⟩ : ∃ deeper, depth = deeper + 1 := ⟨depth - 1, by have := hinner.pos; omega⟩
    cases next with
    | none =>
      rw [hend rfl]
      have hread : expression stop (deeper + 1) (w ++ []) = ⟨.ok f, []⟩ :=
        inner.reader_append stop hinner ends
      exact Reader.primary_group opens hread
    | some t =>
      have hread : expression stop (deeper + 1) (w ++ t :: rest) = ⟨.ok f, t :: rest⟩ :=
        inner.reader_append stop hinner ends
      show Reader.primary stop _ (opening :: (w ++ t :: rest)) = _
      rw [Reader.primary_group opens hread, Reader.close_fail (unfit t rfl)]
  | @primary w next obstacle operand unsigned ih =>
    have hhead : ∀ t ∈ (w ++ (next.toList ++ rest)).head?, t.kind ≠ .negation := by
      cases next with
      | none =>
        rw [hend rfl]
        exact unsigned
      | some s =>
        intro t ht
        refine unsigned t ?_
        simpa [List.head?_append] using ht
    show Reader.negation stop _ _ = _
    rw [Reader.negation_unsigned hhead]
    exact ih hnest hend
  | @neg sign w next obstacle kind operand ih =>
    have hlater : NestedBelow (depth + 1) w :=
      (NestedBelow.cons_iff (by simp [kind]) (by simp [kind])).1 hnest
    have hread : Reader.negation stop (expression stop depth) (w ++ (next.toList ++ rest)) =
        ⟨.error (obstacle.error stop next), rest⟩ := ih hlater hend
    show Reader.negation stop _ (sign :: (w ++ (next.toList ++ rest))) = _
    rw [Reader.negation_sign kind, hread]
    rfl
  | @single c w next obstacle operand ih =>
    rw [reader_binary]
    exact Reader.chain_fail (ih hnest hend)
  | @fold c u w sign f next obstacle left kind right ih =>
    have hlater : NestedBelow (depth + 1) w :=
      (NestedBelow.cons_iff (by simp [kind]) (by simp [kind])).1 (hnest.of_append_right left.balanced)
    have hleft := left.reader_resume stop hnest.of_append_left
      (stops_operands_of_sign kind (w ++ (next.toList ++ rest)))
    rw [List.append_assoc, List.cons_append, hleft]
    exact Reader.goOn_fail kind (ih hlater hend)

/-! ### What is derived around a break -/

/-- The tokens before a break would break off at the end mark as well. -/
theorem atEnd (h : Breaks level w next obstacle) : Breaks level w none obstacle := by
  induction h with
  | operand _ => exact .operand (by simp)
  | inside opens _ ih => exact .inside opens ih
  | unclosed opens inner _ _ =>
    exact .unclosed opens inner (by simp) (stops_nil .loosest)
  | @primary w next _ _ unsigned ih =>
    refine .primary ih fun t ht => unsigned t ?_
    rw [Option.toList_none, List.append_nil] at ht
    rw [List.head?_append, Option.mem_def.1 ht]
    rfl
  | neg kind _ ih => exact .neg kind ih
  | single _ ih => exact .single ih
  | fold left kind _ ih => exact .fold left kind ih

/-- Nothing that is derived goes on with the token at which reading breaks off. -/
theorem not_derives_append {t : Token} (h : Breaks level w (some t) obstacle) (later : List Token)
    (f : Formula) : ¬ Derives level (w ++ t :: later) f := by
  intro hderives
  have hnest : NestedBelow ((w ++ t :: later).length + 1) (w ++ t :: later) :=
    NestedBelow.of_length_lt (Nat.lt_succ_self _)
  have hfails : level.reader (Token.endMark 0) (expression (Token.endMark 0) (w ++ t :: later).length)
      (w ++ t :: later) = ⟨.error (obstacle.error (Token.endMark 0) (some t)), later⟩ :=
    h.reader_append (Token.endMark 0) hnest.of_append_left (by simp)
  have hreads := hderives.reader_append (Token.endMark 0) hnest (stops_nil level)
  rw [List.append_nil, hfails] at hreads
  cases hreads

/-- The tokens before a break are not derived. -/
theorem not_derives (h : Breaks level w next obstacle) (f : Formula) : ¬ Derives level w f := by
  intro hderives
  have hnest : NestedBelow (w.length + 1) w := NestedBelow.of_length_lt (Nat.lt_succ_self _)
  have hfails := h.atEnd.reader_append (Token.endMark 0) hnest (fun _ => rfl)
  have hreads := hderives.reader_append (Token.endMark 0) hnest (stops_nil level)
  rw [Option.toList_none, List.append_nil, hreads] at hfails
  cases hfails

/-- The tokens before a break begin something that is derived: a name stands in for the missing
operand, and the open groups are closed. -/
theorem exists_derives (h : Breaks level w next obstacle) :
    ∃ later f, Derives level (w ++ later) f := by
  induction h with
  | operand _ => exact ⟨[⟨.name, "p", 0⟩], _, .name rfl⟩
  | @inside opening w _ _ opens _ ih =>
    obtain ⟨later, f, hderives⟩ := ih
    refine ⟨later ++ [⟨.closeParen, ")", 0⟩], .group f, ?_⟩
    rw [List.cons_append, ← List.append_assoc]
    exact .group opens hderives rfl
  | unclosed opens inner _ _ => exact ⟨[⟨.closeParen, ")", 0⟩], _, .group opens inner rfl⟩
  | primary _ _ ih =>
    obtain ⟨later, f, hderives⟩ := ih
    exact ⟨later, f, .primary hderives⟩
  | neg kind _ ih =>
    obtain ⟨later, f, hderives⟩ := ih
    exact ⟨later, .neg f, .neg kind hderives⟩
  | single _ ih =>
    obtain ⟨later, f, hderives⟩ := ih
    exact ⟨later, f, .single hderives⟩
  | @fold c u w sign f _ _ left kind _ ih =>
    obtain ⟨later, g, hderives⟩ := ih
    refine ⟨later, .binary c f g, ?_⟩
    rw [List.append_assoc, List.cons_append]
    exact .fold left kind hderives

end Breaks

end Propositional
