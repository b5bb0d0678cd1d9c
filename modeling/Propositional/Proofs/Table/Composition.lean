import Mathlib.Data.Option.NAry
import Propositional.Proofs.Formula.Embedding
import Propositional.Proofs.Table.Outcome
import Propositional.Proofs.Table.Verdicts

/-!
# Texts made of other texts

* `readText_joined`, `readText_negated` — a connective between two texts in parentheses, and a negation
  sign in front of one, are read as the formulas of the texts in groups;
* `foldl_insertName_eq_append` — the names of two formulas are those of the first and the new ones of the
  second;
* `TruthTable.valueAt`, `restrictRow` — the value of a table on a row, and the part of a row that belongs
  to some of the names; `valueAt_map` — the value on the row of a valuation is the truth value;
* `Combines`, `Negates` — a table is put together from the tables of the parts;
* `truthTable_compositional` — both for the tables of texts.
-/

namespace Propositional

/-! ### Reading -/

/-- Two texts in parentheses with a sign between them. -/
def joined (left before sign after right : String) : String :=
  "(" ++ left ++ ")" ++ before ++ sign ++ after ++ "(" ++ right ++ ")"

/-- A text in parentheses with a sign in front of it. -/
def signed (sign after text : String) : String := sign ++ after ++ "(" ++ text ++ ")"

theorem readText_strict_iff {source : String} {f : Formula} :
    readText source true = .ok f ↔
      Writes source.toList f.shapes ∧ f.Graded ∧ f.Native ∧ f.depth ≤ nestingLimit := by
  rw [readText_eq_ok_iff, exists_parse_strict_iff]

section Reading

/-- A text with a formula has a table if there is no bound. -/
theorem exists_truthTable_of_readText {source : String} {strict : Bool} {f : Formula}
    (h : readText source strict = .ok f) : ∃ table, truthTable source strict none = .ok table := by
  obtain ⟨tokens, hlex, hparse⟩ := readText_eq_ok_iff.1 h
  exact exists_truthTable_iff.2 ⟨tokens, f, hlex, hparse, by simp⟩

variable {f g : Formula} {source other sign before after : String}

/-- A sign in front of a text in parentheses. -/
theorem writes_signed {kind : TokenKind} (hsign : Legal sign.toList kind) (hname : kind ≠ .name)
    (hafter : IsBlank after) (hsource : Writes source.toList f.shapes) :
    Writes (signed sign after source).toList ((kind, "") :: (Formula.group f).shapes) := by
  have hgroup : Writes ('(' :: (source.toList ++ [')'])) ((Formula.group f).shapes ++ []) :=
    hsource.group .nil
  have hseparated : Separated (after.toList ++ '(' :: (source.toList ++ [')'])) :=
    separated_blanks hafter fun _ => separated_cons (by decide) _
  have hwrites := Writes.lexeme hsign hname (Writes.blanks hafter hgroup) hseparated
  rw [List.append_nil] at hwrites
  simpa [signed] using hwrites

/-- A connective between two texts in parentheses is read as the connective of their groups. -/
theorem readText_joined {c : Connective} (hf : readText source true = .ok f)
    (hg : readText other true = .ok g) (hfDepth : f.depth < nestingLimit)
    (hgDepth : g.depth < nestingLimit) (hsign : Legal sign.toList (.connective c))
    (hbefore : IsBlank before) (hafter : IsBlank after) :
    readText (joined source before sign after other) true =
      .ok (.binary c (.group f) (.group g)) := by
  obtain ⟨hfWrites, hfGraded, hfNative, _⟩ := readText_strict_iff.1 hf
  obtain ⟨hgWrites, hgGraded, hgNative, _⟩ := readText_strict_iff.1 hg
  refine readText_strict_iff.2 ⟨?_, ⟨?_, ?_⟩, ⟨hfNative, hgNative⟩, ?_⟩
  · have hright := writes_signed hsign (by simp) hafter hgWrites
    have hwrites := hfWrites.group (Writes.blanks hbefore hright)
    simpa [joined, signed, Formula.shapes] using hwrites
  · exact ⟨(Level.binary c).strength_le_primary, hfGraded⟩
  · refine ⟨?_, hgGraded⟩
    show c.strength < Level.primary.strength
    cases c <;> decide
  · exact Nat.max_le.2 ⟨hfDepth, hgDepth⟩

/-- A negation sign in front of a text in parentheses is read as the negation of its group. -/
theorem readText_negated (hf : readText source true = .ok f) (hfDepth : f.depth < nestingLimit)
    (hsign : Legal sign.toList .negation) (hafter : IsBlank after) :
    readText (signed sign after source) true = .ok (.neg (.group f)) := by
  obtain ⟨hfWrites, hfGraded, hfNative, _⟩ := readText_strict_iff.1 hf
  refine readText_strict_iff.2 ⟨?_, ⟨Level.negation.strength_le_primary, hfGraded⟩, hfNative, hfDepth⟩
  exact writes_signed hsign (by decide) hafter hfWrites

end Reading

/-! ### Names -/

/-- Names that are collected after others are those of them that are new. -/
theorem foldl_insertName_eq_append (names occurrences : List String) :
    occurrences.foldl insertName names =
      names ++ (occurrences.foldl insertName []).filter fun name => !names.contains name := by
  induction occurrences generalizing names with
  | nil => simp
  | cons x occurrences ih =>
    have hfirst : insertName [] x = [x] := rfl
    rw [List.foldl_cons, List.foldl_cons, ih, hfirst, ih [x], List.filter_append, List.filter_filter]
    by_cases hx : x ∈ names
    · have hsame : insertName names x = names := by simp [insertName, hx]
      have hnone : [x].filter (fun name => !names.contains name) = [] := by simp [hx]
      rw [hsame, hnone, List.nil_append]
      congr 1
      refine List.filter_congr fun name _ => ?_
      by_cases hname : name = x
      · simp [hname, hx]
      · simp [hname]
    · have hnew : insertName names x = names ++ [x] := by simp [insertName, hx]
      have hkept : [x].filter (fun name => !names.contains name) = [x] := by simp [hx]
      rw [hnew, hkept, List.append_assoc]
      congr 2
      refine List.filter_congr fun name _ => ?_
      simp

/-! ### Values -/

/-- The value of a table on a row. -/
def TruthTable.valueAt (t : TruthTable) (row : List Bool) : Option Bool :=
  (t.rows.zip t.values).lookup row

/-- The part of a row that belongs to some of the names. -/
def restrictRow (names part : List String) (row : List Bool) : List Bool :=
  part.map (rowValuation names row)

theorem lookup_zip_map {rows : List (List Bool)} {row : List Bool} (h : row ∈ rows)
    (value : List Bool → Bool) : (rows.zip (rows.map value)).lookup row = some (value row) := by
  induction rows with
  | nil => cases h
  | cons first rows ih =>
    rw [List.map_cons, List.zip_cons_cons, List.lookup_cons]
    by_cases heq : row = first
    · simp [heq]
    · have hne : (row == first) = false := by simpa using heq
      rw [hne]
      exact ih ((List.mem_cons.1 h).resolve_left heq)

/-- The row of a valuation. -/
theorem SendsBits.map_eq {names : List String} {number : Nat} {valuation : String → Bool}
    (h : SendsBits names number valuation) : names.map valuation = bitRow names.length number := by
  refine List.ext_getElem (by simp) fun place hplace _ => ?_
  rw [List.length_map] at hplace
  rw [List.getElem_map, h place hplace]
  simp [bitRow]

/-- The value of a table on the row of a valuation is the truth value of its formula. -/
theorem valueAt_map {f : Formula} (h : f.Native) {maxVars : Option Int} {table : TruthTable}
    (htable : f.table maxVars = .ok table) (valuation : String → Bool) :
    table.valueAt (table.names.map valuation) = some (f.denote valuation) := by
  obtain ⟨hnames, hrows, hvalues⟩ := parts_of_table h htable
  obtain ⟨number, hnumber, hsends⟩ := exists_sendsBits table.names valuation
  have hmem : bitRow table.names.length number ∈ table.rows := by
    rw [hrows]
    exact List.mem_of_getElem? (bitRows_getElem? hnumber)
  have hnodup : table.names.Nodup := by
    rw [hnames]
    exact nodup_foldl_insertName List.nodup_nil _
  rw [hsends.map_eq, TruthTable.valueAt, hvalues, lookup_zip_map hmem]
  refine congrArg some (Formula.denote_congr fun name hname => ?_)
  refine (sendsBits_rowValuation hnodup number).eq_of_mem hsends ?_
  rw [hnames]
  exact mem_foldl_insertName_iff.2 (.inr hname)

/-! ### Tables put together -/

/-- A table is put together from two others by a connective: its names are those of the first and the new
ones of the second, and its value on each row is that of the connective, on the values of both on the
part of the row that is theirs. -/
structure Combines (c : Connective) (left right table : TruthTable) : Prop where
  names : table.names = left.names ++ right.names.filter fun name => !left.names.contains name
  rows : table.rows = bitRows table.names.length
  values : table.values.map some = table.rows.map fun row =>
    Option.map₂ c.apply (left.valueAt (restrictRow table.names left.names row))
      (right.valueAt (restrictRow table.names right.names row))

/-- A table has the names and rows of another one and the opposite values. -/
structure Negates (part table : TruthTable) : Prop where
  names : table.names = part.names
  rows : table.rows = part.rows
  values : table.values = part.values.map not

section Tables

variable {f g : Formula} {maxVars maxVars' maxVars'' : Option Int} {left right table : TruthTable}

theorem combines_of_table {c : Connective} (hf : f.Native) (hg : g.Native)
    (hleft : f.table maxVars = .ok left) (hright : g.table maxVars' = .ok right)
    (htable : (Formula.binary c (.group f) (.group g)).table maxVars'' = .ok table) :
    Combines c left right table := by
  have hnative : (Formula.binary c (.group f) (.group g)).Native := ⟨hf, hg⟩
  obtain ⟨hleftNames, _, _⟩ := parts_of_table hf hleft
  obtain ⟨hrightNames, _, _⟩ := parts_of_table hg hright
  obtain ⟨hnames, hrows, hvalues⟩ := parts_of_table hnative htable
  refine ⟨?_, hrows, ?_⟩
  · rw [hnames, hleftNames, hrightNames]
    show (f.occurrences ++ g.occurrences).foldl insertName [] = _
    rw [List.foldl_append, foldl_insertName_eq_append]
  · rw [hvalues, List.map_map]
    refine List.map_congr_left fun row _ => ?_
    rw [restrictRow, restrictRow, valueAt_map hf hleft, valueAt_map hg hright]
    rfl

theorem negates_of_table (hf : f.Native) (hpart : f.table maxVars = .ok left)
    (htable : (Formula.neg (.group f)).table maxVars' = .ok table) : Negates left table := by
  have hnative : (Formula.neg (.group f)).Native := hf
  obtain ⟨hpartNames, hpartRows, hpartValues⟩ := parts_of_table hf hpart
  obtain ⟨hnames, hrows, hvalues⟩ := parts_of_table hnative htable
  have hsame : table.names = left.names := hnames.trans hpartNames.symm
  refine ⟨hsame, ?_, ?_⟩
  · rw [hrows, hpartRows, hsame]
  · rw [hvalues, hpartValues, hrows, hpartRows, hsame, List.map_map]
    rfl

end Tables

/-- **Texts are compositional.**  Let two texts be read strictly as formulas with their parentheses nested
below the limit.  Any spelling of a connective between the two in parentheses, with or without blanks
around it, is read strictly as the connective of the two groups; so the text has a table, and every table
that it has under any bound is put together from the tables of the two by the connective.  And any spelling
of a negation in front of the first in parentheses is read strictly as the negation of its group; its
tables have the opposite values. -/
theorem truthTable_compositional {source other : String} {f g : Formula}
    (hf : readText source true = .ok f) (hg : readText other true = .ok g)
    (hfDepth : f.depth < nestingLimit) (hgDepth : g.depth < nestingLimit) :
    (∀ (c : Connective) (sign before after : String), Legal sign.toList (.connective c) →
      IsBlank before → IsBlank after →
      readText (joined source before sign after other) true =
          .ok (.binary c (.group f) (.group g)) ∧
        (∃ left right table, truthTable source true none = .ok left ∧
          truthTable other true none = .ok right ∧
          truthTable (joined source before sign after other) true none = .ok table) ∧
        ∀ maxVars maxVars' maxVars'' left right table,
          truthTable source true maxVars = .ok left → truthTable other true maxVars' = .ok right →
          truthTable (joined source before sign after other) true maxVars'' = .ok table →
          Combines c left right table) ∧
    ∀ sign after : String, Legal sign.toList .negation → IsBlank after →
      readText (signed sign after source) true = .ok (.neg (.group f)) ∧
        (∃ part table, truthTable source true none = .ok part ∧
          truthTable (signed sign after source) true none = .ok table) ∧
        ∀ maxVars maxVars' part table, truthTable source true maxVars = .ok part →
          truthTable (signed sign after source) true maxVars' = .ok table → Negates part table := by
  have hfNative : f.Native := (readText_strict_iff.1 hf).2.2.1
  have hgNative : g.Native := (readText_strict_iff.1 hg).2.2.1
  obtain ⟨left, hleft⟩ := exists_truthTable_of_readText hf
  constructor
  · intro c sign before after hsign hbefore hafter
    have hread := readText_joined hf hg hfDepth hgDepth hsign hbefore hafter
    obtain ⟨right, hright⟩ := exists_truthTable_of_readText hg
    obtain ⟨table, htable⟩ := exists_truthTable_of_readText hread
    refine ⟨hread, ⟨left, right, table, hleft, hright, htable⟩, ?_⟩
    intro maxVars maxVars' maxVars'' left right table hleft hright htable
    rw [truthTable_of_readText hf] at hleft
    rw [truthTable_of_readText hg] at hright
    rw [truthTable_of_readText hread] at htable
    exact combines_of_table hfNative hgNative hleft hright htable
  · intro sign after hsign hafter
    have hread := readText_negated hf hfDepth hsign hafter
    obtain ⟨table, htable⟩ := exists_truthTable_of_readText hread
    refine ⟨hread, ⟨left, table, hleft, htable⟩, ?_⟩
    intro maxVars maxVars' part table hpart htable
    rw [truthTable_of_readText hf] at hpart
    rw [truthTable_of_readText hread] at htable
    exact negates_of_table hfNative hpart htable

/-- A keyword in mixed case between a parenthesis and a line feed joins two texts that share a name, and
another one negates a text. -/
theorem truthTable_compositional_implication :
    joined "p or q" "" "iF" "\n" "r1 ^ ~q" = "(p or q)iF\n(r1 ^ ~q)" ∧
      signed "NOT" "" "p or q" = "NOT(p or q)" ∧
      readText "(p or q)iF\n(r1 ^ ~q)" true = .ok (.binary .imp
        (.group (.binary .disj (.var "p") (.var "q")))
        (.group (.binary .conj (.var "r1") (.neg (.var "q"))))) ∧
      ∃ left right table negated, truthTable "p or q" true none = .ok left ∧
        truthTable "r1 ^ ~q" true (some 2) = .ok right ∧
        truthTable "(p or q)iF\n(r1 ^ ~q)" true (some 3) = .ok table ∧
        table.names = ["p", "q", "r1"] ∧ Combines .imp left right table ∧
        truthTable "NOT(p or q)" true none = .ok negated ∧ Negates left negated := by
  have hleft : readText "p or q" true = .ok (.binary .disj (.var "p") (.var "q")) := by
    decide +kernel
  have hright : readText "r1 ^ ~q" true = .ok (.binary .conj (.var "r1") (.neg (.var "q"))) := by
    decide +kernel
  have hjoined : joined "p or q" "" "iF" "\n" "r1 ^ ~q" = "(p or q)iF\n(r1 ^ ~q)" := by
    decide +kernel
  have hsigned : signed "NOT" "" "p or q" = "NOT(p or q)" := by decide +kernel
  have himp : Legal "iF".toList (.connective .imp) := .word "if" (by decide) (by decide)
  have hnot : Legal "NOT".toList .negation := .word "not" (by decide) (by decide)
  obtain ⟨hcombined, hnegated⟩ := truthTable_compositional hleft hright (by decide) (by decide)
  have hempty : IsBlank "" := by simp [IsBlank]
  have hfeed : IsBlank "\n" := by simp [IsBlank]
  obtain ⟨hread, _, hcombines⟩ := hcombined .imp "iF" "" "\n" himp hempty hfeed
  obtain ⟨_, ⟨left, negated, hleftTable, hnegatedTable⟩, hnegates⟩ :=
    hnegated "NOT" "" hnot hempty
  rw [hjoined] at hread hcombines
  rw [hsigned] at hnegatedTable hnegates
  have hrightTable : truthTable "r1 ^ ~q" true (some 2) =
      .ok ⟨["r1", "q"], "r1 ∧ ¬q", bitRows 2, [false, false, true, false]⟩ := by decide +kernel
  have htable : truthTable "(p or q)iF\n(r1 ^ ~q)" true (some 3) =
      .ok ⟨["p", "q", "r1"], "(p ∨ q) → (r1 ∧ ¬q)", bitRows 3,
        [true, true, false, false, false, true, false, false]⟩ := by
    decide +kernel
  exact ⟨hjoined, hsigned, hread, left, _, _, negated, hleftTable, hrightTable, htable, rfl,
    hcombines _ _ _ _ _ _ hleftTable hrightTable htable, hnegatedTable,
    hnegates _ _ _ _ hleftTable hnegatedTable⟩

end Propositional
