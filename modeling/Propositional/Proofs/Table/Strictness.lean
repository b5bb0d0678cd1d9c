import Propositional.Proofs.Formula.Printed
import Propositional.Proofs.Table.Stages
import Propositional.Proofs.Token.Joining

/-!
# Strict and lenient reading

* `cutAt` — a text up to a place; `Munch.tokens_before` — the tokens in front of a token;
  `exists_lex_cutAt` — these are the tokens of the text that is cut there;
* `truthTable_strict_or_cut` — so both modes give the same table, or strict reading reports a place in the
  text, and gives the table of lenient reading if the text is cut there.
-/

namespace Propositional

/-! ### Texts that are cut -/

/-- A text up to a place. -/
def cutAt (source : String) (place : Nat) : String := String.ofList (source.toList.take place)

/-- The tokens of a text that stand in front of one of them are those that come before it. -/
theorem Munch.tokens_before {text : List Char} {u later : List Token} {t : Token}
    (h : Munch 0 text (u ++ t :: later)) {stop : Token} (hstop : t.position ≤ stop.position) :
    ((u ++ t :: later) ++ [stop]).filter (fun s => decide (s.position < t.position)) = u := by
  obtain ⟨_, hlater, hbefore⟩ := List.pairwise_append.1 h.tiles.ordered
  have hkept : u.filter (fun s => decide (s.position < t.position)) = u := by
    refine List.filter_eq_self.2 fun s hs => decide_eq_true ?_
    exact (hbefore s hs t List.mem_cons_self).1
  have hleft : (t :: (later ++ [stop])).filter (fun s => decide (s.position < t.position)) = [] := by
    refine List.filter_eq_nil_iff.2 fun s hs => ?_
    rw [decide_eq_true_iff, Int.not_lt]
    rcases List.mem_cons.1 hs with rfl | hs
    · exact Int.le_refl _
    · rcases List.mem_append.1 hs with hs | hs
      · exact Int.le_of_lt ((List.pairwise_cons.1 hlater).1 s hs).1
      · rwa [List.mem_singleton.1 hs]
  rw [List.append_assoc, List.cons_append, List.filter_append, hkept, hleft, List.append_nil]

/-- A text that is cut in front of a token has the tokens before it. -/
theorem exists_lex_cutAt {source : String} {u later : List Token} {t : Token}
    (h : Munch 0 source.toList (u ++ t :: later)) :
    ∃ place : Nat, t.position = place ∧ place < source.length ∧
      lex (cutAt source place) = .ok (u ++ [Token.endMark place]) := by
  obtain ⟨before, lexeme, behind, htext, htoken, hlongest, hmunch, _⟩ := h.split
  have hcut : cutAt source before.length = String.ofList before := by rw [cutAt, htext, List.take_left]
  refine ⟨before.length, ?_, ?_, ?_⟩
  · rw [htoken, Nat.zero_add]
  · have hpos := List.length_pos_iff.2 hlongest.legal.ne_nil
    rw [← String.length_toList, htext, List.length_append, List.length_append]
    omega
  · rw [hcut, lex_of_munch (by rwa [String.toList_ofList]), String.length_ofList]

/-- **Strict and lenient reading** differ only by a tail that can be cut off.  Where lenient reading gives
a table, strict reading gives the same one, or else it reports a token of the text.  If the text is cut
in front of that token, it has the tokens before the token and an end mark, and strict reading gives the
table that lenient reading gives for the whole text.  And where strict reading gives a table, lenient
reading gives the same one. -/
theorem truthTable_strict_or_cut (source : String) (maxVars : Option Int) (table : TruthTable) :
    (truthTable source false maxVars = .ok table →
      truthTable source true maxVars = .ok table ∨
      ∃ tokens t, lex source = .ok tokens ∧ t ∈ tokens ∧
        truthTable source true maxVars =
          .error (.parse ⟨.trailing t.lexeme, some t.position⟩) ∧
        ∃ place : Nat, t.position = place ∧ place < source.length ∧
          truthTable (cutAt source place) true maxVars = .ok table ∧
          lex (cutAt source place) = .ok (tokens.filter (fun s => decide (s.position < (place : Int))) ++
            [Token.endMark place])) ∧
    (truthTable source true maxVars = .ok table → truthTable source false maxVars = .ok table) := by
  constructor
  · intro h
    obtain ⟨tokens, f, hlex, hparse, htable⟩ := truthTable_eq_ok_iff.1 h
    obtain ⟨found, hmunch, rfl⟩ := munch_of_lex hlex
    rcases parse_strict_of_lenient (endMarked_append_endMark _ _) hparse with
      hstrict | ⟨u, t, later, hsplit, hu, hnest, hstrict⟩
    · exact .inl (truthTable_eq_ok_iff.2 ⟨_, f, hlex, hstrict, htable⟩)
    · rw [tokensAhead_append_endMark hmunch.kind_ne_endMark] at hsplit
      subst hsplit
      obtain ⟨place, hposition, hlt, hcut⟩ := exists_lex_cutAt hmunch
      have hmark : ∀ s ∈ u, s.kind ≠ .endMark :=
        fun s hs => hmunch.kind_ne_endMark s (List.mem_append_left _ hs)
      have hparseCut := parse_strict_of_derives hu hnest hmark place
      refine .inr ⟨_, t, hlex, by simp, ?_, place, hposition, hlt, ?_, ?_⟩
      · exact truthTable_eq_error_iff.2 (.inr (.inl ⟨_, _, hlex, hstrict, rfl⟩))
      · exact truthTable_eq_ok_iff.2 ⟨_, f, hcut, hparseCut, htable⟩
      · have hstop : t.position ≤ (Token.endMark source.length).position := by
          show t.position ≤ (source.length : Int)
          omega
        have hbefore := hmunch.tokens_before hstop
        rw [hposition] at hbefore
        rw [hbefore, hcut]
  · intro h
    obtain ⟨tokens, f, hlex, hparse, htable⟩ := truthTable_eq_ok_iff.1 h
    have hlenient := parse_lenient_of_strict (endMarked_of_lex hlex) hparse
    exact truthTable_eq_ok_iff.2 ⟨_, f, hlex, hlenient, htable⟩

/-- A negation behind a disjunction is left over; the text in front of it has the table of the
disjunction, and the blank there does not matter. -/
theorem truthTable_strict_or_cut_negation :
    ∃ table, truthTable "p v q1 not r" false (some 2) = .ok table ∧
      truthTable "p v q1 not r" true (some 2) = .error (.parse ⟨.trailing "not", some 7⟩) ∧
      cutAt "p v q1 not r" 7 = "p v q1 " ∧ truthTable "p v q1 " true (some 2) = .ok table ∧
      truthTable "p v q1 " false (some 2) = .ok table := by
  have hlenient : truthTable "p v q1 not r" false (some 2) =
      .ok ⟨["p", "q1"], "p ∨ q1", bitRows 2, [false, true, true, true]⟩ := by decide +kernel
  have hstrict : truthTable "p v q1 not r" true (some 2) =
      .error (.parse ⟨.trailing "not", some 7⟩) := by decide +kernel
  have hcut : cutAt "p v q1 not r" 7 = "p v q1 " := by decide +kernel
  rcases (truthTable_strict_or_cut "p v q1 not r" (some 2) _).1 hlenient with
    hsame | ⟨_, t, _, _, herror, place, hposition, _, htable, _⟩
  · rw [hstrict] at hsame
    cases hsame
  · rw [hstrict, hposition] at herror
    have hplace : place = 7 := by
      injection herror with herror
      injection herror with herror
      injection herror with _ hposition
      injection hposition with hposition
      omega
    rw [hplace, hcut] at htable
    exact ⟨_, hlenient, hstrict, hcut, htable, (truthTable_strict_or_cut _ _ _).2 htable⟩

end Propositional
