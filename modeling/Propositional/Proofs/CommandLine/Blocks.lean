import Propositional.CommandLine.Report
import Propositional.Proofs.Table.Stages

/-!
# The output, block by block

The output for some formulas is made of one block for each of them, and the blocks know of each other only
that an empty line sets a table apart from an earlier one.

* `Block.text`, `Block.gap` — the text of a block, and the empty line in front of it;
  `unlines_blockLines` — the lines of blocks are these texts one after the other;
* `Settings.tabled` — does a formula have a table?  `Settings.Shows` — what is printed for it alone;
* `Settings.Uncompared` — a formula that can be read, but has no bound to be compared with;
  `report_eq_ok`, `report_eq_error` — such formulas apart, there is a report;
* `exitCode_shownBlocks` — its exit code tells whether all formulas have tables.
-/

namespace Propositional

theorem unlines_append (lines later : List String) :
    unlines (lines ++ later) = unlines lines ++ unlines later := by
  rw [unlines, List.map_append, String.join_append]
  rfl

theorem unlines_cons (line : String) (lines : List String) :
    unlines (line :: lines) = line ++ "\n" ++ unlines lines := by
  rw [unlines, List.map_cons, String.join_cons]
  rfl

namespace CommandLine

/-! ### Blocks as text -/

/-- The text of a block. -/
def Block.text : Block → String
  | failure line => line ++ "\n"
  | table lines => unlines lines

/-- Does a block show a table? -/
def Block.isTable (b : Block) : Bool := !b.isFailure

/-- What stands in front of a block behind earlier ones: an empty line between two tables. -/
def Block.gap (earlier : List Block) (b : Block) : String :=
  if b.isTable && earlier.any Block.isTable then "\n" else ""

theorem unlines_blockLines_cons (earlier : List Block) (b : Block) (blocks : List Block) :
    unlines (blockLines (earlier.any Block.isTable) (b :: blocks)) =
      b.gap earlier ++ b.text ++ unlines (blockLines ((earlier ++ [b]).any Block.isTable) blocks) := by
  rw [List.any_append]
  cases b with
  | failure line =>
    have hgap : Block.gap earlier (.failure line) = "" := rfl
    rw [blockLines, unlines_cons, hgap, String.empty_append]
    simp [Block.text, Block.isTable, Block.isFailure]
  | table lines =>
    have hlater : (earlier.any Block.isTable || [Block.table lines].any Block.isTable) = true := by
      simp [Block.isTable, Block.isFailure]
    rw [hlater, blockLines, unlines_append, unlines_append]
    cases hany : earlier.any Block.isTable <;>
      simp [Block.gap, Block.isTable, Block.isFailure, Block.text, hany, unlines]

/-- The lines of blocks are their texts, each behind the gap to the blocks before it. -/
theorem unlines_blockLines (earlier blocks : List Block) :
    unlines (blockLines (earlier.any Block.isTable) blocks) =
      String.join (blocks.mapIdx fun i b => b.gap (earlier ++ blocks.take i) ++ b.text) := by
  induction blocks generalizing earlier with
  | nil => rfl
  | cons b blocks ih =>
    rw [unlines_blockLines_cons, ih, List.mapIdx_cons, String.join_cons, List.take_zero,
      List.append_nil]
    simp only [List.take_succ_cons, List.append_assoc, List.singleton_append]

namespace Settings

variable {s : Settings} {formula : String}

/-! ### The block of a formula -/

/-- The bound on the number of variables, if there is one. -/
def limit? (s : Settings) : Option Int :=
  match s.maxVars with
  | .atMost count => some count
  | .leftOut => none

/-- Does a formula have a table? -/
def tabled (s : Settings) (formula : String) : Bool :=
  (truthTable formula s.strict s.limit?).isOk

/-- What is printed for a formula alone. -/
inductive Shows (s : Settings) (formula : String) : String → Prop
  | failure {e : FormulaError} (h : truthTable formula s.strict s.limit? = .error e) :
      Shows s formula (formula ++ ": " ++ e.text ++ "\n")
  | table {t : TruthTable} (h : truthTable formula s.strict s.limit? = .ok t) :
      Shows s formula (unlines (s.tableLines t))

/-- The block of a formula. -/
def shownBlock (s : Settings) (formula : String) : Block :=
  match truthTable formula s.strict s.limit? with
  | .ok t => .table (s.tableLines t)
  | .error e => .failure (formula ++ ": " ++ e.text)

theorem shows_text_shownBlock (s : Settings) (formula : String) :
    s.Shows formula (s.shownBlock formula).text := by
  unfold shownBlock
  split
  · rename_i t h
    exact .table h
  · rename_i e h
    exact .failure h

theorem isTable_shownBlock (s : Settings) (formula : String) :
    (s.shownBlock formula).isTable = s.tabled formula := by
  unfold shownBlock tabled
  split <;> rename_i h <;> rw [h] <;> rfl

/-- A formula can be read, but the bound with which it is to be compared is left out. -/
def Uncompared (s : Settings) (formula : String) : Prop :=
  s.maxVars = .leftOut ∧ ∃ f, readText formula s.strict = .ok f

/-- Every formula has its block, unless it lacks a bound. -/
theorem block_eq_ok (h : ¬ s.Uncompared formula) : s.block formula = .ok (s.shownBlock formula) := by
  cases hmax : s.maxVars with
  | atMost count =>
    have hlimit : s.limit? = some count := by rw [limit?, hmax]
    cases htable : truthTable formula s.strict (some count) with
    | ok t => simp only [block, hmax, blockWithin, shownBlock, hlimit, htable]
    | error e => simp only [block, hmax, blockWithin, shownBlock, hlimit, htable]
  | leftOut =>
    have hlimit : s.limit? = none := by rw [limit?, hmax]
    cases hread : readText formula s.strict with
    | ok f => exact absurd ⟨hmax, f, hread⟩ h
    | error e =>
      have htable : truthTable formula s.strict none = .error e := by
        rw [truthTable, hread]
        rfl
      simp only [block, hmax, hread, shownBlock, hlimit, htable]

theorem block_eq_error (h : s.Uncompared formula) : s.block formula = .error .noBound := by
  obtain ⟨hmax, f, hread⟩ := h
  simp only [block, hmax, hread]

theorem eq_noBound_of_block {cause : Abort} (h : s.block formula = .error cause) :
    cause = .noBound := by
  by_cases hbound : s.Uncompared formula
  · rw [block_eq_error hbound] at h
    cases h
    rfl
  · rw [block_eq_ok hbound] at h
    cases h

/-! ### The report on some formulas -/

/-- The formulas that are not blank. -/
def nonblank (formulas : List String) : List String :=
  formulas.filter fun formula => !Text.isBlankText formula.toList

variable {formulas : List String}

/-- The report on formulas none of which lacks a bound. -/
theorem report_eq_ok (h : ∀ formula ∈ nonblank formulas, ¬ s.Uncompared formula) :
    s.report formulas = .ok {
      exitCode := if ((nonblank formulas).map s.shownBlock).any Block.isFailure then 1 else 0
      output := unlines (blockLines false ((nonblank formulas).map s.shownBlock)) } := by
  have hblocks : (nonblank formulas).mapM s.block = .ok ((nonblank formulas).map s.shownBlock) :=
    mapM_eq_ok fun formula hmem => block_eq_ok (h formula hmem)
  show ((nonblank formulas).mapM s.block >>= _) = _
  rw [hblocks]
  rfl

/-- There is no report if some formula lacks a bound. -/
theorem report_eq_error (h : ∃ formula ∈ nonblank formulas, s.Uncompared formula) :
    s.report formulas = .error .noBound := by
  have hblocks : (nonblank formulas).mapM s.block = .error .noBound := by
    refine mapM_eq_error (fun _ _ _ => eq_noBound_of_block) ?_
    obtain ⟨formula, hmem, hbound⟩ := h
    exact ⟨formula, hmem, block_eq_error hbound⟩
  show ((nonblank formulas).mapM s.block >>= _) = _
  rw [hblocks]
  rfl

/-- The exit code of a report is zero if all formulas have tables, and one otherwise. -/
theorem exitCode_shownBlocks (s : Settings) (formulas : List String) :
    (if (formulas.map s.shownBlock).any Block.isFailure then 1 else 0 : UInt8) =
      if formulas.all s.tabled then 0 else 1 := by
  have hflip : (formulas.map s.shownBlock).any Block.isFailure = !formulas.all s.tabled := by
    rw [List.any_map, List.not_all_eq_any_not]
    congr 1
    funext formula
    rw [← isTable_shownBlock, Block.isTable, Bool.not_not]
    rfl
  rw [hflip]
  cases formulas.all s.tabled <;> rfl

end Settings

end CommandLine

end Propositional
