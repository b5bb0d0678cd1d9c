import Propositional.Proofs.Formula.Canonical
import Propositional.Proofs.Formula.FirstImpossible

/-!
# Where parentheses are nested too deep

Reading gives up for the depth of nesting at the first place where more parentheses are open than the
limit allows, if it gets there at all.

* `Plunges` — tokens at whose end, and nowhere before it, more parentheses are open than a limit allows;
  `exists_plunges` — there is a first such place if there is any;
* `Breaks.reader_tooDeep` — a reader gives up there, whatever stands behind it, and names the next token;
* `breaks_or_refused` — tokens that leave a parenthesis open break off at their end, unless one of them is
  refused before;
* `expression_tooDeep`, `expression_tooDeep_iff` — reading gives up exactly if viable tokens leave too many
  parentheses open, at the first place where they do;
* `parse_tooDeep`, `exists_viable_of_parse` — and so does parsing, in both modes.
-/

namespace Propositional

/-! ### The first place that is too deep -/

/-- At the end of the tokens, and nowhere before it, more than `limit` parentheses are open. -/
structure Plunges (limit : Nat) (u : List Token) : Prop where
  deep : closeCount u + limit < openCount u
  first : ∀ v, v <+: u → v ≠ u → openCount v ≤ closeCount v + limit

theorem exists_plunges {limit : Nat} {ts : List Token} (h : ¬ NestedWithin limit ts) :
    ∃ u, u <+: ts ∧ Plunges limit u := by
  induction ts using List.reverseRecOn with
  | nil =>
    refine absurd (fun v hv => ?_) h
    rw [List.prefix_nil.1 hv]
    simp
  | append_singleton ts t ih =>
    by_cases hbefore : NestedWithin limit ts
    · have hfirst : ∀ v, v <+: ts ++ [t] → v ≠ ts ++ [t] → openCount v ≤ closeCount v + limit :=
        fun v hv hne => hbefore v ((List.prefix_concat_iff.1 hv).resolve_left hne)
      refine ⟨ts ++ [t], List.prefix_refl _, Nat.lt_of_not_le fun hwithin => h fun v hv => ?_, hfirst⟩
      by_cases heq : v = ts ++ [t]
      · rwa [heq]
      · exact hfirst v hv heq
    · obtain ⟨u, hu, hplunges⟩ := ih hbefore
      exact ⟨u, hu.trans (List.prefix_append ts [t]), hplunges⟩

namespace Plunges

variable {limit : Nat} {opening : Token} {u w : List Token}

theorem not_balanced (h : Plunges limit u) : openCount u ≠ closeCount u := by
  have hdeep := h.deep
  omega

/-- The last token opens the one parenthesis too many. -/
theorem openCount_le (h : Plunges limit u) : openCount u ≤ closeCount u + (limit + 1) := by
  rcases List.eq_nil_or_concat' u with rfl | ⟨v, t, rfl⟩
  · simp
  · have hbefore := h.first v (List.prefix_append v [t]) (by simp)
    rw [openCount_append, closeCount_append]
    have hlast : openCount [t] ≤ 1 := List.countP_le_length
    omega

/-- In a row of opening parentheses the first place that is too deep is behind the one too many. -/
theorem length_eq_of_openParens (h : Plunges limit u) (hopen : ∀ t ∈ u, t.kind = .openParen) :
    u.length = limit + 1 := by
  have hcount : openCount u = u.length := List.countP_eq_length.2 fun t ht => by simp [hopen t ht]
  have hnone : closeCount u = 0 := List.countP_eq_zero.2 fun t ht => by simp [hopen t ht]
  have hdeep := h.deep
  have hle := h.openCount_le
  omega

/-- In front of the place that is too deep nothing is. -/
theorem nestedBelow (h : Plunges limit (u ++ w)) (hw : w ≠ []) : NestedBelow (limit + 1) u := by
  intro v hv
  refine Nat.lt_succ_of_le (h.first v (hv.trans (List.prefix_append u w)) ?_)
  rintro rfl
  have hlength := hv.length_le
  have hpos := List.length_pos_iff.2 hw
  rw [List.length_append] at hlength
  omega

/-- Tokens in front that close all that they open do not count. -/
theorem of_append_right (hbalanced : openCount u = closeCount u) (h : Plunges limit (u ++ w)) :
    Plunges limit w where
  deep := by
    have hdeep := h.deep
    rw [openCount_append, closeCount_append] at hdeep
    omega
  first v hv hne := by
    have hcount := h.first (u ++ v) ((List.prefix_append_right_inj u).2 hv)
      fun heq => hne (List.append_cancel_left heq)
    rw [openCount_append, closeCount_append] at hcount
    omega

/-- Behind an opening parenthesis one level fewer is allowed. -/
theorem of_open (hopen : opening.kind = .openParen) (h : Plunges (limit + 1) (opening :: w)) :
    Plunges limit w where
  deep := by
    have hdeep := h.deep
    simp only [openCount_cons, closeCount_cons, hopen] at hdeep
    simp at hdeep
    omega
  first v hv hne := by
    have hcount := h.first (opening :: v) (List.cons_prefix_cons.2 ⟨rfl, hv⟩)
      fun heq => hne (List.cons.inj heq).2
    simp only [openCount_cons, closeCount_cons, hopen] at hcount
    simp at hcount
    omega

/-- Where no level is allowed, the first opening parenthesis is too deep. -/
theorem eq_nil_of_open (hopen : opening.kind = .openParen) (h : Plunges 0 (opening :: w)) :
    w = [] := by
  by_contra hw
  have hcount := h.first [opening] (List.cons_prefix_cons.2 ⟨rfl, List.nil_prefix⟩)
    (by simpa using Ne.symm hw)
  simp [hopen] at hcount

end Plunges

/-! ### Reading gives up there -/

/-- A reader gives up where the tokens before a break are too deep, whatever stands behind them, and names
the next token. -/
theorem Breaks.reader_tooDeep {level : Level} {w : List Token} {next : Option Token}
    {obstacle : Obstacle} (h : Breaks level w next obstacle) (stop : Token) {depth : Nat}
    (hplunges : Plunges depth w) (rest : List Token) :
    level.reader stop (expression stop depth) (w ++ rest) =
      ⟨.error ⟨.tooDeep, some (rest.headD stop).position⟩, rest⟩ := by
  induction h generalizing depth with
  | operand _ => exact absurd rfl hplunges.not_balanced
  | @inside opening w next obstacle opens _ ih =>
    cases depth with
    | zero =>
      rw [hplunges.eq_nil_of_open opens]
      show Reader.primary stop (expression stop 0) (opening :: rest) = _
      exact Reader.primary_group_fail opens rfl
    | succ deeper => exact Reader.primary_group_fail opens (ih (hplunges.of_open opens))
  | @unclosed opening w f next opens inner _ _ =>
    -- the group is complete, so only its own parenthesis is open, and nothing would be in it
    have hdeep := hplunges.deep
    simp only [openCount_cons, closeCount_cons, opens, inner.balanced] at hdeep
    obtain rfl : depth = 0 := by simp at hdeep; omega
    exact absurd (hplunges.eq_nil_of_open opens) inner.ne_nil
  | @primary w next obstacle _ unsigned ih =>
    cases w with
    | nil => exact absurd rfl hplunges.not_balanced
    | cons t w =>
      show Reader.negation stop _ (t :: (w ++ rest)) = _
      rw [Reader.negation_of_head (unsigned t rfl)]
      exact ih hplunges
  | @neg sign w next obstacle kind _ ih =>
    have hlater : Plunges depth w := Plunges.of_append_right (u := [sign]) (by simp [kind]) hplunges
    have hread : Reader.negation stop (expression stop depth) (w ++ rest) =
        ⟨.error ⟨.tooDeep, some (rest.headD stop).position⟩, rest⟩ := ih hlater
    show Reader.negation stop _ (sign :: (w ++ rest)) = _
    rw [Reader.negation_sign kind, hread]
    rfl
  | @single c w next obstacle _ ih =>
    rw [reader_binary]
    exact Reader.chain_fail (ih hplunges)
  | @fold c u w sign f next obstacle left kind _ ih =>
    have hlater : Plunges depth w :=
      Plunges.of_append_right (u := [sign]) (by simp [kind]) (hplunges.of_append_right left.balanced)
    have hbefore : NestedBelow (depth + 1) u := hplunges.nestedBelow (List.cons_ne_nil sign w)
    have hleft := left.reader_resume stop hbefore (stops_operands_of_sign kind (w ++ rest))
    rw [List.append_assoc, List.cons_append, hleft]
    exact Reader.goOn_fail kind (ih hlater)

/-! ### Only there -/

/-- Tokens that leave a parenthesis open break off at their end, unless one of them is refused before. -/
theorem breaks_or_refused (stop : Token) {w : List Token} (h : openCount w ≠ closeCount w) :
    (∃ obstacle, Breaks .loosest w none obstacle) ∨
      ∃ v t later e, w = v ++ t :: later ∧ Refused stop v (some t) e := by
  have hnest : NestedBelow (w.length + 1) w := NestedBelow.of_length_lt (Nat.lt_succ_self _)
  rcases hread : expression stop (w.length + 1) w with ⟨e | f, rest⟩
  · obtain ⟨v, next, obstacle, hw, hend, hbreaks, _⟩ := expression_explains stop _ w e rest hnest hread
    cases next with
    | none =>
      rw [hend rfl, Option.toList_none, List.append_nil, List.append_nil] at hw
      exact .inl ⟨obstacle, hw ▸ hbreaks⟩
    | some t => exact .inr ⟨v, t, rest, _, hw, .broken hbreaks⟩
  · obtain ⟨v, rfl, hv, _, hstops⟩ := expression_sound stop _ w f rest hread
    cases rest with
    | nil =>
      rw [List.append_nil] at h
      exact absurd hv.balanced h
    | cons t later => exact .inr ⟨v, t, later, _, rfl, .trailing hv (stops_loosest_iff.1 hstops t rfl)⟩

/-- Where a token is refused, reading does not give up for what stands behind it. -/
theorem Refused.expression_ne_tooDeep {stop t : Token} {v : List Token} {e : ParseError}
    (h : Refused stop v (some t) e) {limit : Nat} (hnest : NestedBelow (limit + 1) v)
    (rest : List Token) {e' : ParseError}
    (hread : (expression stop (limit + 1) (v ++ t :: rest)).result = .error e') :
    e'.fault ≠ .tooDeep := by
  cases h with
  | @broken _ obstacle breaks =>
    have hbreak : expression stop (limit + 1) (v ++ t :: rest) =
        ⟨.error (obstacle.error stop (some t)), rest⟩ := breaks.reader_append stop hnest (by simp)
    rw [hbreak] at hread
    cases hread
    exact obstacle.fault_error_ne_tooDeep stop (some t)
  | @trailing _ f complete ends =>
    have hstops : Stops .loosest (t :: rest) :=
      stops_loosest_iff.2 fun s hs => by cases hs; exact ends
    have hcomplete : expression stop (limit + 1) (v ++ t :: rest) = ⟨.ok f, t :: rest⟩ :=
      complete.reader_append stop hnest hstops
    rw [hcomplete] at hread
    cases hread

section Expressions

variable {stop : Token} {limit : Nat} {ts : List Token}

/-- Reading gives up for the depth only if viable tokens leave too many parentheses open. -/
theorem exists_viable_of_expression {e : ParseError}
    (h : (expression stop (limit + 1) ts).result = .error e) (hfault : e.fault = .tooDeep) :
    ∃ u, u <+: ts ∧ Viable (u.map Token.kind) ∧ closeCount u + limit < openCount u := by
  by_cases hnest : NestedWithin limit ts
  · have hread : expression stop (limit + 1) ts = ⟨.error e, (expression stop (limit + 1) ts).rest⟩ := by
      rw [← h]
    have hbelow := nestedWithin_iff_nestedBelow.1 hnest
    exact absurd hfault ((expression_explains stop _).fault_ne_tooDeep hbelow hread)
  · obtain ⟨u, ⟨rest, rfl⟩, hplunges⟩ := exists_plunges hnest
    rcases breaks_or_refused stop hplunges.not_balanced with
      ⟨_, hbreaks⟩ | ⟨v, t, later, _, rfl, hrefused⟩
    · exact ⟨u, List.prefix_append u rest, viable_map_kind_iff.2 hbreaks.exists_derives, hplunges.deep⟩
    · rw [List.append_assoc] at h
      have hbefore : NestedBelow (limit + 1) v := hplunges.nestedBelow (List.cons_ne_nil t later)
      exact absurd hfault (hrefused.expression_ne_tooDeep hbefore _ h)

/-- Viable tokens that leave too many parentheses open have a first place that is too deep, and they are
viable up to there. -/
theorem exists_plunges_of_viable {u : List Token} (hviable : Viable (u.map Token.kind))
    (hdeep : closeCount u + limit < openCount u) :
    ∃ v, v <+: u ∧ Viable (v.map Token.kind) ∧ Plunges limit v := by
  have hnest : ¬ NestedWithin limit u := fun h => Nat.not_lt.2 (h u (List.prefix_refl u)) hdeep
  obtain ⟨v, hv, hplunges⟩ := exists_plunges hnest
  exact ⟨v, hv, hviable.of_prefix (hv.map Token.kind), hplunges⟩

/-- Reading gives up at the first place that is too deep, whatever stands behind it, and names the next
token. -/
theorem expression_tooDeep {u : List Token} (hviable : Viable (u.map Token.kind))
    (hplunges : Plunges limit u) (rest : List Token) :
    expression stop (limit + 1) (u ++ rest) =
      ⟨.error ⟨.tooDeep, some (rest.headD stop).position⟩, rest⟩ := by
  rcases breaks_or_refused stop hplunges.not_balanced with
    ⟨_, hbreaks⟩ | ⟨v, t, later, _, rfl, hrefused⟩
  · exact hbreaks.reader_tooDeep stop hplunges rest
  · -- a token that is refused does not stand in viable tokens
    refine absurd (hviable.of_prefix (List.IsPrefix.map Token.kind ?_)) hrefused.not_viable
    exact ⟨later, by simp⟩

/-- Reading gives up for the depth exactly if viable tokens leave too many parentheses open. -/
theorem expression_tooDeep_iff :
    (∃ position, (expression stop (limit + 1) ts).result = .error ⟨.tooDeep, position⟩) ↔
      ∃ u, u <+: ts ∧ Viable (u.map Token.kind) ∧ closeCount u + limit < openCount u := by
  constructor
  · rintro ⟨position, h⟩
    exact exists_viable_of_expression h rfl
  · rintro ⟨u, hu, hviable, hdeep⟩
    obtain ⟨v, hv, hbefore, hplunges⟩ := exists_plunges_of_viable hviable hdeep
    obtain ⟨rest, rfl⟩ := hv.trans hu
    exact ⟨_, congrArg Reading.result (expression_tooDeep hbefore hplunges rest)⟩

end Expressions

/-! ### Whole token sequences -/

theorem Derives.kind_ne_endMark {level : Level} {w : List Token} {f : Formula}
    (h : Derives level w f) : ∀ t ∈ w, t.kind ≠ .endMark := by
  induction h with
  | const kind => simp [kind]
  | name kind => simp [kind]
  | group opens _ closes ih => simpa [opens, closes, or_imp, forall_and] using ih
  | primary _ ih => exact ih
  | neg kind _ ih => simpa [kind] using ih
  | single _ ih => exact ih
  | fold _ kind _ ihl ihr => simpa [kind, or_imp, forall_and] using ⟨ihl, ihr⟩

/-- No end mark stands in a sentence. -/
theorem kind_ne_endMark_of_viable {u : List Token} (h : Viable (u.map Token.kind)) :
    ∀ t ∈ u, t.kind ≠ .endMark := by
  obtain ⟨later, f, hf⟩ := viable_map_kind_iff.1 h
  exact fun t ht => hf.kind_ne_endMark t (List.mem_append_left later ht)

/-- Any number of opening parentheses is viable. -/
theorem viable_openParens (n : Nat) : Viable (List.replicate n .openParen) := by
  induction n with
  | zero =>
    have hname : Derives .primary [⟨.name, "p", 0⟩] (.var "p") := .name rfl
    exact ⟨_, List.nil_prefix, _, hname.loosen Level.primary.loosest_strength_le⟩
  | succ n ih =>
    obtain ⟨w, hw, f, hf⟩ := ih
    have hgroup : Derives .primary (⟨.openParen, "(", 0⟩ :: (w ++ [⟨.closeParen, ")", 0⟩])) (.group f) :=
      .group rfl hf rfl
    refine ⟨_, ?_, _, hgroup.loosen Level.primary.loosest_strength_le⟩
    rw [List.map_cons, List.map_append]
    exact List.cons_prefix_cons.2 ⟨rfl, hw.trans (List.prefix_append _ _)⟩

/-- Parsing gives up at the first place that is too deep, whatever stands behind it, and names the next
token, which may be an end mark. -/
theorem parse_tooDeep {u rest : List Token} {t : Token} (hend : EndMarked (u ++ t :: rest))
    (hviable : Viable (u.map Token.kind)) (hplunges : Plunges nestingLimit u) (strict : Bool) :
    parse (u ++ t :: rest) strict = .error ⟨.tooDeep, some t.position⟩ := by
  obtain ⟨stop, later, hsplit, _, hstream⟩ := hend.exists_stream
  have hahead : tokensAhead (u ++ t :: rest) = u ++ tokensAhead (t :: rest) :=
    List.takeWhile_append_of_pos fun s hs => by
      simpa [Token.isEndMark] using kind_ne_endMark_of_viable hviable s hs
  have hnext : (tokensAhead (t :: rest)).headD stop = t := by
    have hhead := head?_append_stop (tokensAhead (t :: rest)) later stop
    rw [hahead, List.append_assoc] at hsplit
    rw [← List.append_cancel_left hsplit] at hhead
    exact (Option.some.inj hhead).symm
  have hread : Level.loosest.read stop (u ++ tokensAhead (t :: rest)) =
      ⟨.error ⟨.tooDeep, some ((tokensAhead (t :: rest)).headD stop).position⟩,
        tokensAhead (t :: rest)⟩ := expression_tooDeep hviable hplunges _
  rw [parse_of_ofTokens hstream, hahead, readFormula, hread, hnext]

/-- Parsing gives up for the depth only if viable tokens leave too many parentheses open. -/
theorem exists_viable_of_parse {tokens : List Token} {strict : Bool} {e : ParseError}
    (hend : EndMarked tokens) (h : parse tokens strict = .error e) (hfault : e.fault = .tooDeep) :
    ∃ u, u <+: tokensAhead tokens ∧ Viable (u.map Token.kind) ∧
      closeCount u + nestingLimit < openCount u := by
  obtain ⟨stop, hstream⟩ := hend.exists_ofTokens
  rw [parse_of_ofTokens hstream, readFormula] at h
  rcases heq : Level.loosest.read stop (tokensAhead tokens) with ⟨e' | f, later⟩
  · rw [heq] at h
    cases h
    exact exists_viable_of_expression (congrArg Reading.result heq) hfault
  · -- behind a complete formula only a token that is left is reported
    rw [heq] at h
    cases later with
    | nil => cases h
    | cons t later =>
      cases strict with
      | false => cases h
      | true =>
        cases h
        cases hfault

end Propositional
