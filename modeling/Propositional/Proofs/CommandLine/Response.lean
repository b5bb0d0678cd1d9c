import Mathlib.Control.Monad.Basic
import Propositional.CommandLine.Directory
import Propositional.Proofs.CommandLine.Blocks
import Propositional.Proofs.FormulaFile

/-!
# The response to arguments

Nothing is known about the system in which the program runs: any name may open a file with any bytes, or
none, for any reason.

* `respond_eq_report`, `respond_eq_cannotOpen` — the response is the report on the formulas of the arguments
  and of the file, or the one line that tells why there is no file;
* `respond_apart` — so the output is made of one block for each formula, which is what is printed for it
  alone, and an empty line in front of each table but the first;
* `respond_exitCode` — and the exit code is zero exactly if the file has been read, if one is named, and all
  formulas have tables.
-/

namespace Propositional.CommandLine

/-- The same settings for one formula. -/
def Settings.alone (s : Settings) (formula : String) : Settings :=
  { s with formulas := [formula], file := "" }

open Settings (nonblank)

variable {files : Files} {arguments : List String} {s : Settings}

theorem respond_of_readArguments (h : readArguments arguments = .ok s) :
    files.respond arguments = s.respond (files.supplied s) := by
  rw [Files.respond, h]

theorem respond_eq_report (h : readArguments arguments = .ok s) {fromFile : List String}
    (hfile : files.supplied s = .ok fromFile) :
    files.respond arguments = s.report (s.formulas ++ fromFile) := by
  rw [respond_of_readArguments h, hfile]
  rfl

theorem respond_eq_cannotOpen (h : readArguments arguments = .ok s) {e : OpenError}
    (hfile : files.supplied s = .error (.cannotOpen e)) :
    files.respond arguments =
      .ok { exitCode := 1, output := s.file ++ ": " ++ e.text s.file ++ "\n" } := by
  rw [respond_of_readArguments h, hfile]
  simp [Settings.respond, unlines]

/-! ### What the file supplies -/

theorem supplied_of_no_file (h : s.file = "") : files.supplied s = .ok [] := by
  rw [Files.supplied, h]
  rfl

theorem supplied_of_file (h : s.file ≠ "") : files.supplied s = files.formulas s.file := by
  rw [Files.supplied, if_neg (by simpa using h)]

theorem formulas_of_read_error {name : String} (hnul : '\x00' ∉ name.toList) {e : OpenError}
    (h : files.read name = .error e) : files.formulas name = .error (.cannotOpen e) := by
  rw [Files.formulas, if_neg (by simpa using hnul), h]

theorem formulas_of_read {name : String} (hnul : '\x00' ∉ name.toList) {text : String}
    (h : files.read name = .ok text.toUTF8) :
    files.formulas name = .ok (FormulaFile.formulasOfText text.toList) := by
  rw [Files.formulas, if_neg (by simpa using hnul), h]
  simp only [FormulaFile.formulasOfBytes_toUTF8]

/-! ### The blocks of a response -/

/-- A formula that is not blank has its block alone on the output when it is the only one. -/
theorem output_alone {formula : String} (h : readArguments arguments = .ok (s.alone formula))
    (hblank : Text.isBlankText formula.toList = false) (hbound : ¬ s.Uncompared formula) :
    ∃ response, files.respond arguments = .ok response ∧
      response.output = (s.shownBlock formula).text := by
  have hone : nonblank ((s.alone formula).formulas ++ []) = [formula] := by
    simp [nonblank, Settings.alone, hblank]
  have hall : ∀ other ∈ nonblank ((s.alone formula).formulas ++ []),
      ¬ (s.alone formula).Uncompared other := by
    intro other hother
    rw [hone, List.mem_singleton] at hother
    rw [hother]
    exact hbound
  have hsupplied : files.supplied (s.alone formula) = .ok [] := supplied_of_no_file rfl
  have hreport := respond_eq_report h hsupplied
  rw [Settings.report_eq_ok hall, hone] at hreport
  refine ⟨_, hreport, ?_⟩
  show unlines (blockLines false [s.shownBlock formula]) = _
  have houtput := unlines_blockLines [] [s.shownBlock formula]
  simpa [Block.gap] using houtput

/-- **The formulas of a command line are treated apart.**  If the file that the arguments name cannot be
opened, one line tells why, and this is the output.  Otherwise there is one block for each formula that is
not blank, in the order of the arguments and of the file: what is printed for the formula alone, behind an
empty line if it has a table and an earlier one has.  Only if the bound is left out, and some formula can
be read and so is to be compared with it, there is no response. -/
theorem respond_apart (h : readArguments arguments = .ok s) :
    (∀ e, s.file ≠ "" → '\x00' ∉ s.file.toList → files.read s.file = .error e →
      ∃ response, files.respond arguments = .ok response ∧
        response.output = s.file ++ ": " ++ e.text s.file ++ "\n") ∧
    ∀ fromFile, (s.file = "" ∧ fromFile = [] ∨ s.file ≠ "" ∧ files.formulas s.file = .ok fromFile) →
      (∃ formula ∈ nonblank (s.formulas ++ fromFile), s.Uncompared formula) ∧
        files.respond arguments = .error .noBound ∨
      (∀ formula ∈ nonblank (s.formulas ++ fromFile), ¬ s.Uncompared formula) ∧
        ∃ response blocks, files.respond arguments = .ok response ∧
          response.output = String.join blocks ∧
          blocks.length = (nonblank (s.formulas ++ fromFile)).length ∧
          ∀ before formula after, nonblank (s.formulas ++ fromFile) = before ++ formula :: after →
            ∃ text, s.Shows formula text ∧
              blocks[before.length]? =
                some ((if s.tabled formula && before.any s.tabled then "\n" else "") ++ text) ∧
              ∀ (elsewhere : Files) arguments', readArguments arguments' = .ok (s.alone formula) →
                ∃ alone, elsewhere.respond arguments' = .ok alone ∧ alone.output = text := by
  refine ⟨fun e hname hnul hread => ?_, fun fromFile hfile => ?_⟩
  · have hfile : files.supplied s = .error (.cannotOpen e) := by
      rw [supplied_of_file hname, formulas_of_read_error hnul hread]
    exact ⟨_, respond_eq_cannotOpen h hfile, rfl⟩
  have hsupplied : files.supplied s = .ok fromFile := by
    rcases hfile with ⟨hname, rfl⟩ | ⟨hname, hformulas⟩
    · exact supplied_of_no_file hname
    · rw [supplied_of_file hname, hformulas]
  rw [respond_eq_report h hsupplied]
  by_cases hbound : ∃ formula ∈ nonblank (s.formulas ++ fromFile), s.Uncompared formula
  · exact .inl ⟨hbound, Settings.report_eq_error hbound⟩
  have hall : ∀ formula ∈ nonblank (s.formulas ++ fromFile), ¬ s.Uncompared formula :=
    fun formula hmem hformula => hbound ⟨formula, hmem, hformula⟩
  refine .inr ⟨hall, _, _, Settings.report_eq_ok hall, unlines_blockLines [] _, by simp, ?_⟩
  intro before formula after hsplit
  have hmem : formula ∈ nonblank (s.formulas ++ fromFile) := by simp [hsplit]
  have hblank : Text.isBlankText formula.toList = false := by
    simpa [nonblank] using (List.mem_filter.1 hmem).2
  refine ⟨_, s.shows_text_shownBlock formula, ?_, fun _ _ hargs =>
    output_alone hargs hblank (hall formula hmem)⟩
  rw [hsplit, List.getElem?_mapIdx]
  simp [Block.gap, Settings.isTable_shownBlock, List.any_map, Function.comp_def]

/-- The second table stands behind an empty line, though the block in front of it reports an error; the
formula of the file comes last. -/
theorem respond_apart_second_table :
    let files := Directory.files ⟨[(["x"], .file "r & # left open\n".toUTF8)]⟩
    let arguments := ["-f", "x", "p", "1p", " ", "q", "--ones"]
    let s : Settings := { formulas := ["p", "1p", " ", "q"], file := "x", ones := true }
    readArguments arguments = .ok s ∧ files.formulas "x" = .ok ["r &"] ∧
      ∃ response blocks text, files.respond arguments = .ok response ∧
        response.output = String.join blocks ∧ blocks.length = 4 ∧
        s.Shows "q" text ∧ blocks[2]? = some ("\n" ++ text) := by
  intro files arguments s
  have harguments : readArguments arguments = .ok s := by decide +kernel
  have htext : FormulaFile.formulasOfText "r & # left open\n".toList = ["r &"] := by decide +kernel
  have hformulas : files.formulas "x" = .ok ["r &"] := by
    have hread : files.read "x" = .ok "r & # left open\n".toUTF8 := rfl
    rw [formulas_of_read (by decide) hread, htext]
  have hsplit : nonblank (s.formulas ++ ["r &"]) = ["p", "1p"] ++ "q" :: ["r &"] := by decide +kernel
  have hgap : (s.tabled "q" && ["p", "1p"].any s.tabled) = true := by decide +kernel
  rcases (respond_apart harguments).2 ["r &"] (.inr ⟨by decide, hformulas⟩) with
    ⟨⟨_, _, hmax, _⟩, _⟩ | ⟨_, response, blocks, hresponse, houtput, hlength, hblocks⟩
  · cases hmax
  · obtain ⟨text, hshows, hblock, _⟩ := hblocks _ _ _ hsplit
    rw [hgap] at hblock
    rw [hsplit] at hlength
    exact ⟨harguments, hformulas, response, blocks, text, hresponse, houtput, hlength, hshows, hblock⟩

/-- A bound that is left out leaves a formula that can be read without a response, and so does a name that
no file can have. -/
theorem respond_not_always :
    (¬ ∀ (files : Files) arguments s, readArguments arguments = .ok s → s.file = "" →
      ∃ response, files.respond arguments = .ok response) ∧
    ¬ ∀ (files : Files) arguments s, readArguments arguments = .ok s → s.file ≠ "" →
      (∀ bytes, files.read s.file ≠ .ok bytes) → ∃ response, files.respond arguments = .ok response := by
  constructor
  · intro h
    obtain ⟨response, hresponse⟩ := h (Directory.files ⟨[]⟩) ["--max-vars=--", "p"]
      { formulas := ["p"], maxVars := .leftOut } (by decide +kernel) rfl
    have habort : (Directory.files ⟨[]⟩).respond ["--max-vars=--", "p"] = .error .noBound := by
      decide +kernel
    rw [habort] at hresponse
    cases hresponse
  · intro h
    obtain ⟨response, hresponse⟩ := h (Directory.files ⟨[]⟩) ["-f", "a\x00b"] { file := "a\x00b" }
      (by decide +kernel) (by decide) (fun _ => nofun)
    have habort : (Directory.files ⟨[]⟩).respond ["-f", "a\x00b"] = .error .malformedName := by
      decide +kernel
    rw [habort] at hresponse
    cases hresponse

/-! ### The exit code -/

/-- **The exit code** of a response is zero if the file has been read, or none is named, and every formula
that is not blank has a table; otherwise it is one.  There is a response if the file cannot be opened, or if
it has been read and no formula lacks a bound. -/
theorem respond_exitCode (h : readArguments arguments = .ok s) :
    ((∃ response, files.respond arguments = .ok response) ↔
      (∃ e, files.supplied s = .error (.cannotOpen e)) ∨
      ∃ fromFile, files.supplied s = .ok fromFile ∧
        ∀ formula ∈ nonblank (s.formulas ++ fromFile), ¬ s.Uncompared formula) ∧
    ∀ response, files.respond arguments = .ok response →
      (response.exitCode = 0 ↔
        ∃ fromFile, files.supplied s = .ok fromFile ∧
          ∀ formula ∈ nonblank (s.formulas ++ fromFile), s.tabled formula = true) ∧
      (response.exitCode = 0 ∨ response.exitCode = 1) := by
  cases hfile : files.supplied s with
  | error cause =>
    rw [respond_of_readArguments h, hfile]
    cases cause <;> simp [Settings.respond]
  | ok fromFile =>
    rw [respond_eq_report h hfile]
    by_cases hbound : ∃ formula ∈ nonblank (s.formulas ++ fromFile), s.Uncompared formula
    · obtain ⟨formula, hmem, hformula⟩ := hbound
      rw [Settings.report_eq_error ⟨formula, hmem, hformula⟩]
      have hnot : ¬ ∀ other ∈ nonblank (s.formulas ++ fromFile), ¬ s.Uncompared other :=
        fun hall => hall formula hmem hformula
      simp [hnot]
    · have hall : ∀ formula ∈ nonblank (s.formulas ++ fromFile), ¬ s.Uncompared formula :=
        fun formula hmem hformula => hbound ⟨formula, hmem, hformula⟩
      rw [Settings.report_eq_ok hall, Settings.exitCode_shownBlocks]
      refine ⟨⟨fun _ => .inr ⟨fromFile, rfl, hall⟩, fun _ => ⟨_, rfl⟩⟩, ?_⟩
      intro response hresponse
      cases hresponse
      cases htabled : (nonblank (s.formulas ++ fromFile)).all s.tabled <;>
        simpa [List.all_eq_true] using htabled

/-- A formula without table counts wherever it comes from: here it is the last one of the file. -/
theorem respond_exitCode_of_file :
    let files : Files :=
      ⟨fun name => if name = "/tmp/x" then .ok "p\rq &".toUTF8 else .error .accessDenied⟩
    readArguments ["--file=/tmp/x", "r"] = .ok { formulas := ["r"], file := "/tmp/x" } ∧
      ∃ response, files.respond ["--file=/tmp/x", "r"] = .ok response ∧ response.exitCode = 1 := by
  intro files
  let s : Settings := { formulas := ["r"], file := "/tmp/x" }
  have harguments : readArguments ["--file=/tmp/x", "r"] = .ok s := by decide +kernel
  have htext : FormulaFile.formulasOfText "p\rq &".toList = ["p", "q &"] := by decide +kernel
  have hsupplied : files.supplied s = .ok ["p", "q &"] := by
    have hread : files.read "/tmp/x" = .ok "p\rq &".toUTF8 := rfl
    rw [supplied_of_file (by decide), formulas_of_read (by decide) hread, htext]
  have hcode := @respond_exitCode files _ _ harguments
  have hbound : ∀ formula ∈ nonblank (s.formulas ++ ["p", "q &"]), ¬ s.Uncompared formula :=
    fun _ _ h => nomatch h.1
  obtain ⟨response, hresponse⟩ := hcode.1.2 (.inr ⟨_, hsupplied, hbound⟩)
  refine ⟨harguments, response, hresponse, (hcode.2 response hresponse).2.resolve_left ?_⟩
  intro hzero
  obtain ⟨fromFile, hfile, htabled⟩ := (hcode.2 response hresponse).1.1 hzero
  rw [hsupplied] at hfile
  cases hfile
  have hlast : s.tabled "q &" = false := by decide +kernel
  have hmem : "q &" ∈ nonblank (s.formulas ++ ["p", "q &"]) := by decide +kernel
  rw [htabled _ hmem] at hlast
  cases hlast

/-- The exit code may be zero though a file is asked for and has not been read: an empty name is taken for
no name. -/
theorem exitCode_zero_without_file :
    ¬ ∀ (files : Files) (name : String) (response : Response),
      files.respond ["-f", name] = .ok response → response.exitCode = 0 →
        ∃ fromFile, files.formulas name = .ok fromFile := by
  intro h
  have hresponse : (Directory.files ⟨[]⟩).respond ["-f", ""] = .ok { exitCode := 0, output := "" } := by
    decide +kernel
  obtain ⟨fromFile, hfile⟩ := h (Directory.files ⟨[]⟩) "" _ hresponse rfl
  have hnone : (Directory.files ⟨[]⟩).formulas "" = .error (.cannotOpen .notFound) := rfl
  rw [hnone] at hfile
  cases hfile

end Propositional.CommandLine
