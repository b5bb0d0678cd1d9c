import Propositional.Proofs.Formula.Grammar

/-!
# Readers against the grammar

A reader is compared with the grammar level by level:

* `Reader.Shortens` — a reader leaves a tail of the tokens that it is given;
* `Reader.goOn` — a chain that goes on after its first operands, free of the bound that `chainFrom`
  needs to stop, with its equations `goOn_stop`, `goOn_step`, `goOn_fail` and the induction over its
  operands, `goOn_induction`;
* `Reader.Sound` — what a reader reads is derived at a level, is not nested too deep, and ends where no
  connective of the level follows;
* `Level.reader_sound`, `expression_sound` — all readers are sound;
* `Derives.reader_append` — what is derived is read, whatever follows;
* `Derives.unique` — a token sequence writes at most one formula.
-/

namespace Propositional

/-- No connective that a level would take stands at the head of the tokens. -/
def Stops (level : Level) (rest : List Token) : Prop :=
  ∀ t ∈ rest.head?, ∀ c ∈ level.connectives, t.kind ≠ .connective c

theorem stops_nil (level : Level) : Stops level [] := by
  intro t ht
  cases ht

theorem connectives_binary (c : Connective) :
    (Level.binary c).connectives = c :: c.operandLevel.connectives := by
  cases c <;> rfl

theorem reader_binary (stop : Token) (inside : Reader) (c : Connective) :
    (Level.binary c).reader stop inside = Reader.chain c (c.operandLevel.reader stop inside) := by
  cases c <;> rfl

theorem not_mem_connectives_operandLevel (c : Connective) :
    c ∉ c.operandLevel.connectives := by
  cases c <;> decide

/-- The sign of a chain is none of the connectives of its operands. -/
theorem stops_operands_of_sign {c : Connective} {sign : Token} (kind : sign.kind = .connective c)
    (later : List Token) : ∀ t ∈ (sign :: later).head?, ∀ d ∈ (Level.binary c).connectives.tail,
      t.kind ≠ .connective d := by
  intro t ht d hd hkind
  cases ht
  rw [kind] at hkind
  cases hkind
  rw [connectives_binary, List.tail_cons] at hd
  exact not_mem_connectives_operandLevel c hd

/-- Negations outside and inside of a run are the same. -/
theorem Formula.negTimes_succ (n : Nat) (f : Formula) :
    f.negTimes (n + 1) = .neg (f.negTimes n) := by
  induction n generalizing f with
  | zero => rfl
  | succ n ih =>
    rw [Formula.negTimes, ih]
    rfl

namespace Reader

variable {stop : Token} {inside operand : Reader} {c : Connective}

/-! ### Operands -/

theorem close_ok {t : Token} (ht : t.kind = .closeParen) (opening : Token) (inner : Formula)
    (ts : List Token) : close stop opening inner (t :: ts) = ⟨.ok (.group inner), ts⟩ := by
  rw [close, if_pos ht]

theorem primary_const {t : Token} {value : Bool} (ht : t.kind = .const value) (ts : List Token) :
    primary stop inside (t :: ts) = ⟨.ok (.const value), ts⟩ := by
  simp [primary, ht]

theorem primary_name {t : Token} (ht : t.kind = .name) (ts : List Token) :
    primary stop inside (t :: ts) = ⟨.ok (.var t.lexeme), ts⟩ := by
  simp [primary, ht]

theorem primary_group {t : Token} (ht : t.kind = .openParen) {ts rest : List Token}
    {inner : Formula} (h : inside ts = ⟨.ok inner, rest⟩) :
    primary stop inside (t :: ts) = close stop t inner rest := by
  simp [primary, ht, h]

theorem primary_group_fail {t : Token} (ht : t.kind = .openParen) {ts rest : List Token}
    {e : ParseError} (h : inside ts = ⟨.error e, rest⟩) :
    primary stop inside (t :: ts) = ⟨.error e, rest⟩ := by
  simp [primary, ht, h]

/-- Does a primary begin with a token of this kind? -/
def beginsPrimary : TokenKind → Bool
  | .const _ => true
  | .name => true
  | .openParen => true
  | _ => false

theorem primary_other {t : Token} (ht : beginsPrimary t.kind = false) (ts : List Token) :
    primary stop inside (t :: ts) =
      ⟨.error ⟨.operandExpected (some t.lexeme), some t.position⟩, ts⟩ := by
  unfold beginsPrimary at ht
  split at ht <;> simp_all [primary]

/-- A negation sign in front of tokens negates what is read from them. -/
theorem negation_sign {t : Token} (ht : t.kind = .negation) (ts : List Token) :
    negation stop inside (t :: ts) =
      { negation stop inside ts with result := (negation stop inside ts).result.map .neg } := by
  have hsign : isNegation t = true := by simp [isNegation, ht]
  simp only [negation, List.dropWhile_cons_of_pos hsign, List.takeWhile_cons_of_pos hsign,
    List.length_cons]
  cases (primary stop inside (ts.dropWhile isNegation)).result with
  | error e => rfl
  | ok f => simp only [Except.map, Formula.negTimes_succ]

theorem negation_of_head {t : Token} (ht : t.kind ≠ .negation) (ts : List Token) :
    negation stop inside (t :: ts) = primary stop inside (t :: ts) := by
  have hsign : ¬ isNegation t = true := by simp [isNegation, ht]
  simp only [negation, List.dropWhile_cons_of_neg hsign, List.takeWhile_cons_of_neg hsign]
  rcases primary stop inside (t :: ts) with ⟨_ | f, rest⟩ <;> rfl

/-! ### A reader leaves a tail -/

/-- A reader leaves a tail of the tokens that it is given, whether it succeeds or not. -/
def Shortens (reader : Reader) : Prop := ∀ ts, (reader ts).rest <:+ ts

theorem close_rest (opening : Token) (inner : Formula) (ts : List Token) :
    (close stop opening inner ts).rest = ts.tail := by
  cases ts with
  | nil => rfl
  | cons t ts =>
    rw [close]
    split <;> rfl

theorem primary_shortens (h : Shortens inside) : Shortens (primary stop inside) := by
  intro ts
  cases ts with
  | nil => exact List.suffix_refl []
  | cons t ts =>
    refine List.IsSuffix.trans ?_ (List.suffix_cons t ts)
    cases hkind : t.kind with
    | const value => simp only [primary_const hkind, List.suffix_refl]
    | name => simp only [primary_name hkind, List.suffix_refl]
    | openParen =>
      have hinside := h ts
      rcases heq : inside ts with ⟨_ | inner, rest⟩
      · rw [primary_group_fail hkind heq]
        rwa [heq] at hinside
      · rw [primary_group hkind heq, close_rest]
        rw [heq] at hinside
        exact (List.tail_suffix rest).trans hinside
    | _ =>
      have hother : beginsPrimary t.kind = false := by rw [hkind]; rfl
      simp only [primary_other hother, List.suffix_refl]

theorem negation_shortens (h : Shortens inside) : Shortens (negation stop inside) := by
  intro ts
  exact (primary_shortens h _).trans (List.dropWhile_suffix isNegation)

theorem chainFrom_shortens (h : Shortens operand) (bound : List Token) (left : Formula)
    (ts : List Token) : (chainFrom c operand bound left ts).rest <:+ ts := by
  induction bound generalizing left ts with
  | nil => exact List.suffix_refl ts
  | cons b bound ih =>
    cases ts with
    | nil => exact List.suffix_refl []
    | cons t ts =>
      unfold chainFrom
      split
      · have hoperand := h ts
        split
        · rename_i right rest heq
          rw [heq] at hoperand
          exact ((ih _ rest).trans hoperand).trans (List.suffix_cons t ts)
        · exact hoperand.trans (List.suffix_cons t ts)
      · exact List.suffix_refl _

theorem chain_shortens (h : Shortens operand) : Shortens (chain c operand) := by
  intro ts
  have hoperand := h ts
  unfold chain
  split
  · rename_i first rest heq
    rw [heq] at hoperand
    exact (chainFrom_shortens h rest first rest).trans hoperand
  · exact hoperand

/-! ### A chain without its bound -/

/-- Two bounds that are both long enough give the same reading. -/
theorem chainFrom_bound (h : Shortens operand) {bound bound' : List Token} (left : Formula)
    {ts : List Token} (hbound : ts.length ≤ bound.length) (hbound' : ts.length ≤ bound'.length) :
    chainFrom c operand bound left ts = chainFrom c operand bound' left ts := by
  induction bound generalizing bound' left ts with
  | nil =>
    have hnil : ts = [] := List.eq_nil_of_length_eq_zero (by simpa using hbound)
    subst hnil
    cases bound' <;> rfl
  | cons b bound ih =>
    cases ts with
    | nil => cases bound' <;> rfl
    | cons t ts =>
      cases bound' with
      | nil => simp at hbound'
      | cons b' bound' =>
        simp only [List.length_cons, Nat.add_le_add_iff_right] at hbound hbound'
        unfold chainFrom
        split
        · have hoperand := (h ts).length_le
          split
          · rename_i right rest heq
            rw [heq] at hoperand
            simp only at hoperand
            exact ih _ (by omega) (by omega)
          · rfl
        · rfl

/-- Go on after the formula `left` with further operands, as long as the connective `c` stands in
front of them. -/
def goOn (c : Connective) (operand : Reader) (left : Formula) : Reader := fun ts =>
  chainFrom c operand ts left ts

theorem goOn_stop {t : Token} (ht : t.kind ≠ .connective c) (left : Formula) (ts : List Token) :
    goOn c operand left (t :: ts) = ⟨.ok left, t :: ts⟩ := by
  rw [goOn, chainFrom, if_neg ht]

theorem goOn_step (h : Shortens operand) {t : Token} (ht : t.kind = .connective c)
    {left right : Formula} {ts rest : List Token} (hright : operand ts = ⟨.ok right, rest⟩) :
    goOn c operand left (t :: ts) = goOn c operand (.binary c left right) rest := by
  have hlen := (h ts).length_le
  rw [hright] at hlen
  rw [goOn, chainFrom, if_pos ht, hright]
  exact chainFrom_bound h _ hlen (Nat.le_refl _)

theorem goOn_fail {t : Token} (ht : t.kind = .connective c) {left : Formula}
    {ts rest : List Token} {e : ParseError} (hright : operand ts = ⟨.error e, rest⟩) :
    goOn c operand left (t :: ts) = ⟨.error e, rest⟩ := by
  rw [goOn, chainFrom, if_pos ht, hright]

/-- What holds where a chain ends or an operand fails, and is handed back over each further operand,
holds of a chain from any formula on. -/
theorem goOn_induction (h : Shortens operand) {motive : Formula → List Token → Reading → Prop}
    (done : ∀ left ts, (∀ t ∈ ts.head?, t.kind ≠ .connective c) → motive left ts ⟨.ok left, ts⟩)
    (fail : ∀ left t ts e rest, t.kind = .connective c → operand ts = ⟨.error e, rest⟩ →
      motive left (t :: ts) ⟨.error e, rest⟩)
    (step : ∀ left t ts right rest, t.kind = .connective c → operand ts = ⟨.ok right, rest⟩ →
      motive (.binary c left right) rest (goOn c operand (.binary c left right) rest) →
      motive left (t :: ts) (goOn c operand (.binary c left right) rest))
    (left : Formula) (ts : List Token) : motive left ts (goOn c operand left ts) := by
  induction hn : ts.length using Nat.strongRecOn generalizing ts left with
  | ind n ih =>
    cases ts with
    | nil => exact done left [] (by simp)
    | cons t ts =>
      by_cases ht : t.kind = .connective c
      · rcases heq : operand ts with ⟨e | right, rest⟩
        · rw [goOn_fail ht heq]
          exact fail left t ts e rest ht heq
        · rw [goOn_step h ht heq]
          have hlen := (h ts).length_le
          rw [heq] at hlen
          refine step left t ts right rest ht heq (ih rest.length ?_ _ rest rfl)
          rw [← hn, List.length_cons]
          exact Nat.lt_succ_of_le hlen
      · rw [goOn_stop ht]
        exact done left (t :: ts) (by simpa using ht)

theorem chain_ok {first : Formula} {ts rest : List Token}
    (h : operand ts = ⟨.ok first, rest⟩) : chain c operand ts = goOn c operand first rest := by
  rw [chain, h]
  rfl

theorem chain_fail {ts rest : List Token} {e : ParseError}
    (h : operand ts = ⟨.error e, rest⟩) : chain c operand ts = ⟨.error e, rest⟩ := by
  rw [chain, h]

end Reader

/-- A property of readers that each level hands on to the next looser one holds at every level. -/
theorem Level.reader_induction {stop : Token} {inside : Reader} {motive : Level → Reader → Prop}
    (primary : motive .primary (Reader.primary stop inside))
    (negation : motive .negation (Reader.negation stop inside))
    (chain : ∀ c : Connective, motive c.operandLevel (c.operandLevel.reader stop inside) →
      motive (.binary c) (Reader.chain c (c.operandLevel.reader stop inside)))
    (level : Level) : motive level (level.reader stop inside) := by
  induction level using Level.induction with
  | primary => exact primary
  | negation _ => exact negation
  | binary c ih =>
    rw [reader_binary]
    exact chain c ih

theorem Level.reader_shortens {stop : Token} {inside : Reader} (h : inside.Shortens)
    (level : Level) : (level.reader stop inside).Shortens :=
  Level.reader_induction (motive := fun _ reader => reader.Shortens)
    (Reader.primary_shortens h) (Reader.negation_shortens h)
    (fun _ hoperand => Reader.chain_shortens hoperand) level

theorem expression_shortens (stop : Token) (depth : Nat) : (expression stop depth).Shortens := by
  induction depth with
  | zero => exact fun ts => List.suffix_refl ts
  | succ depth ih => exact Level.reader_shortens ih Level.loosest

theorem Level.read_shortens (stop : Token) (level : Level) : (level.read stop).Shortens :=
  Level.reader_shortens (expression_shortens stop nestingLimit) level

/-! ### What is read is derived -/

/-- What a reader reads is derived at a level, with fewer than `depth` parentheses open at any place,
and no connective of the level follows it. -/
def Reader.Sound (reader : Reader) (level : Level) (depth : Nat) : Prop :=
  ∀ ts f rest, reader ts = ⟨.ok f, rest⟩ →
    ∃ w, ts = w ++ rest ∧ Derives level w f ∧ NestedBelow depth w ∧ Stops level rest

namespace Reader

variable {stop : Token} {inside operand : Reader} {c : Connective} {depth : Nat}

theorem stops_primary (rest : List Token) : Stops .primary rest := by
  intro t _ c hc
  cases hc

theorem stops_negation (rest : List Token) : Stops .negation rest := by
  intro t _ c hc
  cases hc

theorem primary_sound (h : Sound inside .loosest depth) :
    Sound (primary stop inside) .primary (depth + 1) := by
  intro ts f rest hread
  cases ts with
  | nil => cases hread
  | cons t ts =>
    cases hkind : t.kind with
    | const value =>
      rw [primary_const hkind] at hread
      cases hread
      refine ⟨[t], rfl, .const hkind, ?_, stops_primary _⟩
      exact NestedBelow.singleton (by simp [hkind]) (Nat.succ_pos depth)
    | name =>
      rw [primary_name hkind] at hread
      cases hread
      refine ⟨[t], rfl, .name hkind, ?_, stops_primary _⟩
      exact NestedBelow.singleton (by simp [hkind]) (Nat.succ_pos depth)
    | openParen =>
      rcases heq : inside ts with ⟨_ | inner, inRest⟩
      · rw [primary_group_fail hkind heq] at hread
        cases hread
      · rw [primary_group hkind heq] at hread
        obtain ⟨w, rfl, hw, hnest, _⟩ := h ts inner inRest heq
        cases inRest with
        | nil => cases hread
        | cons closing later =>
          by_cases hclose : closing.kind = .closeParen
          · rw [close_ok hclose] at hread
            cases hread
            refine ⟨t :: (w ++ [closing]), by simp, .group hkind hw hclose, ?_, stops_primary _⟩
            exact (NestedBelow.group_iff hkind hclose hw.balanced).2 hnest
          · rw [close, if_neg hclose] at hread
            cases hread
    | _ =>
      rw [primary_other (by rw [hkind]; rfl)] at hread
      cases hread

theorem negation_sound (h : Sound inside .loosest depth) :
    Sound (negation stop inside) .negation (depth + 1) := by
  intro ts
  induction ts with
  | nil =>
    intro f rest hread
    cases hread
  | cons t ts ih =>
    intro f rest hread
    by_cases hsign : t.kind = .negation
    · rw [negation_sign hsign] at hread
      rcases heq : negation stop inside ts with ⟨_ | g, rest'⟩
      · rw [heq] at hread
        cases hread
      · rw [heq] at hread
        cases hread
        obtain ⟨w, rfl, hw, hnest, _⟩ := ih g _ heq
        refine ⟨t :: w, rfl, .neg hsign hw, ?_, stops_negation _⟩
        have hone : NestedBelow (depth + 1) [t] :=
          NestedBelow.singleton (by simp [hsign]) (Nat.succ_pos depth)
        exact NestedBelow.append (by simp [hsign]) hone hnest
    · rw [negation_of_head hsign] at hread
      obtain ⟨w, hts, hw, hnest, _⟩ := primary_sound h _ _ _ hread
      exact ⟨w, hts, .primary hw, hnest, stops_negation _⟩

theorem stops_binary {rest : List Token} (hstops : Stops c.operandLevel rest)
    (hhead : ∀ t ∈ rest.head?, t.kind ≠ .connective c) : Stops (.binary c) rest := by
  intro t ht d hd
  rw [connectives_binary] at hd
  rcases List.mem_cons.1 hd with rfl | hd
  · exact hhead t ht
  · exact hstops t ht d hd

/-- The part `u` of a chain has been read and gives `left`; what is read then goes on with it. -/
theorem goOn_sound (hshort : Shortens operand) (h : Sound operand c.operandLevel (depth + 1))
    {ts u rest : List Token} {left f : Formula} (hleft : Derives (.binary c) u left)
    (hnest : NestedBelow (depth + 1) u) (hstops : Stops c.operandLevel ts)
    (hread : goOn c operand left ts = ⟨.ok f, rest⟩) :
    ∃ w, ts = w ++ rest ∧ Derives (.binary c) (u ++ w) f ∧
      NestedBelow (depth + 1) (u ++ w) ∧ Stops (.binary c) rest := by
  -- the part that is derived so far grows by each further operand
  refine goOn_induction hshort (motive := fun left ts reading => ∀ u, Derives (.binary c) u left →
    NestedBelow (depth + 1) u → Stops c.operandLevel ts → ∀ f rest, reading = ⟨.ok f, rest⟩ →
      ∃ w, ts = w ++ rest ∧ Derives (.binary c) (u ++ w) f ∧ NestedBelow (depth + 1) (u ++ w) ∧
        Stops (.binary c) rest)
    ?done ?fail ?step left ts u hleft hnest hstops f rest hread
  case done =>
    intro left ts hends u hleft hnest hstops f rest hread
    cases hread
    exact ⟨[], rfl, by simpa using hleft, by simpa using hnest, stops_binary hstops hends⟩
  case fail =>
    intro left t ts e later _ _ u _ _ _ f rest hread
    cases hread
  case step =>
    intro left t ts right later ht heq ih u hleft hnest _ f rest hread
    obtain ⟨v, rfl, hv, hvnest, hvstops⟩ := h ts right later heq
    have hfold : Derives (.binary c) (u ++ t :: v) (.binary c left right) := .fold hleft ht hv
    have hfoldNest : NestedBelow (depth + 1) (u ++ t :: v) := by
      have hone : NestedBelow (depth + 1) [t] :=
        NestedBelow.singleton (by simp [ht]) (Nat.succ_pos depth)
      exact NestedBelow.append hleft.balanced hnest
        (NestedBelow.append (by simp [ht]) hone hvnest)
    obtain ⟨w, rfl, hw, hwnest, hwstops⟩ := ih _ hfold hfoldNest hvstops f rest hread
    exact ⟨t :: v ++ w, by simp, by simpa using hw, by simpa using hwnest, hwstops⟩

theorem chain_sound (hshort : Shortens operand) (h : Sound operand c.operandLevel (depth + 1)) :
    Sound (chain c operand) (.binary c) (depth + 1) := by
  intro ts f rest hread
  rcases heq : operand ts with ⟨_ | first, later⟩
  · rw [chain_fail heq] at hread
    cases hread
  · rw [chain_ok heq] at hread
    obtain ⟨u, rfl, hu, hunest, hustops⟩ := h ts first later heq
    obtain ⟨w, rfl, hw, hwnest, hwstops⟩ :=
      goOn_sound hshort h (.single hu) hunest hustops hread
    exact ⟨u ++ w, by simp, hw, hwnest, hwstops⟩

end Reader

theorem Level.reader_sound {stop : Token} {inside : Reader} {depth : Nat}
    (hshort : inside.Shortens) (h : inside.Sound .loosest depth) (level : Level) :
    (level.reader stop inside).Sound level (depth + 1) :=
  Level.reader_induction (motive := fun level reader => reader.Sound level (depth + 1))
    (Reader.primary_sound h) (Reader.negation_sound h)
    (fun c hoperand => Reader.chain_sound (Level.reader_shortens hshort c.operandLevel) hoperand)
    level

theorem expression_sound (stop : Token) (depth : Nat) :
    (expression stop depth).Sound .loosest depth := by
  induction depth with
  | zero =>
    intro ts f rest hread
    cases hread
  | succ depth ih => exact Level.reader_sound (expression_shortens stop depth) ih .loosest

/-! ### What is derived is read -/

/-- What a level does behind a part that gives `f`: a chain goes on, and the other levels are done. -/
def Level.resume (stop : Token) (inside : Reader) : Level → Formula → Reader
  | .binary c, f => Reader.goOn c (c.operandLevel.reader stop inside) f
  | _, f => fun ts => ⟨.ok f, ts⟩

theorem resume_of_stops {stop : Token} {inside : Reader} {level : Level} {f : Formula}
    {rest : List Token} (h : Stops level rest) :
    level.resume stop inside f rest = ⟨.ok f, rest⟩ := by
  cases level with
  | primary => rfl
  | negation => rfl
  | binary c =>
    cases rest with
    | nil => rfl
    | cons t ts =>
      refine Reader.goOn_stop (h t rfl c ?_) f ts
      rw [connectives_binary]
      exact List.mem_cons_self

namespace Derives

variable {level : Level} {w : List Token} {f : Formula}

/-- A derived part is read, whatever follows, up to the point where its level would go on.  A chain is
not done there, since its left operands are themselves parts that the chain goes on behind. -/
theorem reader_resume (h : Derives level w f) (stop : Token) {depth : Nat} {rest : List Token}
    (hnest : NestedBelow (depth + 1) w)
    (hstops : ∀ t ∈ rest.head?, ∀ c ∈ level.connectives.tail, t.kind ≠ .connective c) :
    level.reader stop (expression stop depth) (w ++ rest) =
      level.resume stop (expression stop depth) f rest := by
  induction h generalizing depth rest with
  | const kind => exact Reader.primary_const kind rest
  | name kind => exact Reader.primary_name kind rest
  | @group opening closing w f opens inner closes ih =>
    have hinner : NestedBelow depth w :=
      (NestedBelow.group_iff opens closes inner.balanced).1 hnest
    obtain ⟨deeper, rfl⟩ : ∃ deeper, depth = deeper + 1 := ⟨depth - 1, by have := hinner.pos; omega⟩
    have hclosing : Stops .loosest (closing :: rest) := by
      intro t ht c _
      cases ht
      simp [closes]
    have hinside : expression stop (deeper + 1) (w ++ closing :: rest) = ⟨.ok f, closing :: rest⟩ := by
      rw [← resume_of_stops hclosing]
      exact ih hinner fun t ht c hc => hclosing t ht c (List.mem_of_mem_tail hc)
    show Reader.primary stop _ (opening :: (w ++ [closing]) ++ rest) = _
    rw [List.cons_append, List.append_assoc, List.singleton_append,
      Reader.primary_group opens hinside, Reader.close_ok closes]
    rfl
  | @primary w f operand ih =>
    obtain ⟨t, later, rfl, hhead⟩ := operand.head_primary
    show Reader.negation stop _ (t :: (later ++ rest)) = _
    rw [Reader.negation_of_head hhead]
    exact ih hnest (by intro t _ c hc; cases hc)
  | @neg sign w f kind operand ih =>
    have hrest : NestedBelow (depth + 1) w :=
      NestedBelow.of_append_right (u := [sign]) (by simp [kind]) hnest
    have hread : Reader.negation stop (expression stop depth) (w ++ rest) = ⟨.ok f, rest⟩ :=
      ih hrest hstops
    show Reader.negation stop _ (sign :: (w ++ rest)) = _
    rw [Reader.negation_sign kind, hread]
    rfl
  | @single c w f operand ih =>
    rw [connectives_binary, List.tail_cons] at hstops
    have hread := ih hnest fun t ht d hd => hstops t ht d (List.mem_of_mem_tail hd)
    rw [resume_of_stops hstops] at hread
    rw [reader_binary, Reader.chain_ok hread]
    rfl
  | @fold c u w sign f g left kind right ihl ihr =>
    rw [connectives_binary, List.tail_cons] at hstops
    have hleft := ihl hnest.of_append_left (stops_operands_of_sign kind (w ++ rest))
    have hnestRight : NestedBelow (depth + 1) w := by
      have hlater := NestedBelow.of_append_right left.balanced hnest
      exact NestedBelow.of_append_right (u := [sign]) (by simp [kind]) hlater
    have hright := ihr hnestRight fun t ht d hd => hstops t ht d (List.mem_of_mem_tail hd)
    rw [resume_of_stops hstops] at hright
    have hshort : (c.operandLevel.reader stop (expression stop depth)).Shortens :=
      Level.reader_shortens (expression_shortens stop depth) c.operandLevel
    rw [List.append_assoc, List.cons_append, hleft]
    exact Reader.goOn_step hshort kind hright

/-- A derived part is read where no connective of its level follows. -/
theorem reader_append (h : Derives level w f) (stop : Token) {depth : Nat} {rest : List Token}
    (hnest : NestedBelow (depth + 1) w) (hstops : Stops level rest) :
    level.reader stop (expression stop depth) (w ++ rest) = ⟨.ok f, rest⟩ := by
  rw [h.reader_resume stop hnest fun t ht c hc => hstops t ht c (List.mem_of_mem_tail hc)]
  exact resume_of_stops hstops

/-- There is at most one place to end a derived part so that no connective of its level follows. -/
theorem split_unique {w' rest rest' : List Token} {f' : Formula} (h : Derives level w f)
    (hstops : Stops level rest) (h' : Derives level w' f') (hstops' : Stops level rest')
    (heq : w ++ rest = w' ++ rest') : w = w' ∧ rest = rest' ∧ f = f' := by
  have hnest : NestedBelow ((w ++ rest).length + 1) (w ++ rest) :=
    NestedBelow.of_length_lt (Nat.lt_succ_self _)
  have hread := h.reader_append (Token.endMark 0) hnest.of_append_left hstops
  rw [heq] at hnest hread
  rw [h'.reader_append (Token.endMark 0) hnest.of_append_left hstops'] at hread
  cases hread
  exact ⟨List.append_cancel_right heq, rfl, rfl⟩

/-- A token sequence writes at most one formula. -/
theorem unique {g : Formula} (h : Derives level w f) (h' : Derives level w g) : f = g := by
  exact (h.split_unique (stops_nil level) h' (stops_nil level) rfl).2.2

end Derives

end Propositional
