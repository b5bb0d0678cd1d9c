import Propositional.Proofs.CommandLine.Flags
import Propositional.Proofs.Table.Views

/-!
# Tables in digits

Tables are shown in letters or in digits.  Both ways have the same lines up to the symbols, though the
digits are those of a table of numbers.

* `binaryLines_eq_format` — the lines of numbers are the lines of the table with digits as symbols;
* `binaryLines_eq_array` — they are the rows that are left of the table of numbers;
* `Sheet`, `Settings.sheet` — what is printed for a formula before symbols are chosen;
  `Settings.printed` — the output in some symbols; `report_eq_printed` — the report in letters or digits;
* `Settings.inDigits`, `readArguments_binary` — the option for digits, in front of any arguments, changes
  nothing but the setting for digits;
* `respond_binary` — so with and without the option the same is printed up to the symbols.
-/

namespace Propositional

namespace TruthTable

/-- The numbers of rows and values are those of their pairs. -/
theorem cells_eq_map (t : TruthTable) :
    t.cells = (t.rows.zip t.values).map fun row => (row.1 ++ [row.2]).map Bool.toNat := by
  rw [cells, List.map_zip_eq_zipWith]
  rfl

/-- A selection from what is made of pairs, by their second parts, keeps the pairs with a set flag. -/
theorem pick_map_zip {α β : Type} (items : List α) (flags : List Bool) (made : α × Bool → β) :
    pick ((items.zip flags).map made) flags = ((items.zip flags).filter Prod.snd).map made := by
  induction items generalizing flags with
  | nil => rfl
  | cons item items ih =>
    cases flags with
    | nil => rfl
    | cons flag flags =>
      have hlater := ih flags
      simp only [pick] at hlater
      cases flag <;> simp [pick, hlater]

/-- The numbers of a row are its line with digits as symbols. -/
theorem intercalate_toNat (row : List Bool × Bool) :
    " ".intercalate (((row.1 ++ [row.2]).map Bool.toNat).map toString) = formatRow "1" "0" row := by
  rw [formatRow, List.map_map]
  congr 1
  refine List.map_congr_left fun value _ => ?_
  cases value <;> rfl

/-- The lines of numbers are the lines of the table with digits as symbols. -/
theorem binaryLines_eq_format (t : TruthTable) (onlyOnes : Bool) :
    t.binaryLines onlyOnes = t.format "1" "0" onlyOnes := by
  have hshown : (if onlyOnes then pick t.cells t.values else t.cells) =
      (t.shownRows onlyOnes).map fun row => (row.1 ++ [row.2]).map Bool.toNat := by
    cases onlyOnes with
    | false =>
      have hall : t.shownRows false = t.rows.zip t.values := List.filter_eq_self.2 fun _ _ => rfl
      rw [if_neg (by decide), hall, cells_eq_map]
    | true =>
      rw [if_pos rfl, cells_eq_map, pick_map_zip]
      rfl
  rw [binaryLines, hshown, format, List.map_map]
  refine congrArg _ (List.map_congr_left fun row _ => ?_)
  exact intercalate_toNat row

end TruthTable

/-- What is shown of a table in digits are the rows that are left of its numbers. -/
theorem binaryLines_eq_array {source : String} {strict : Bool} {maxVars : Option Int}
    {table : TruthTable} (h : truthTable source strict maxVars = .ok table) (onlyOnes : Bool) :
    ∃ numbers shown, table.array = .ok numbers ∧
      (if onlyOnes then TruthTable.select numbers table.values else .ok numbers) = .ok shown ∧
      table.binaryLines onlyOnes =
        table.header :: shown.map fun row => " ".intercalate (row.map toString) := by
  have hcounted := counted_of_truthTable h
  obtain ⟨harray, htabulates⟩ := hcounted.tabulates
  refine ⟨table.cells, if onlyOnes then TruthTable.pick table.cells table.values else table.cells,
    harray, ?_, rfl⟩
  have hlength : table.values.length = table.cells.length := by
    rw [htabulates.length, hcounted.length_eq]
  rw [TruthTable.select_of_length_eq hlength]
  cases onlyOnes <;> rfl

namespace CommandLine

/-! ### What is printed, up to symbols -/

/-- What is printed for a formula before symbols are chosen: an error line, or a header and rows of truth
values. -/
inductive Sheet where
  | failure (line : String)
  | table (header : String) (rows : List (List Bool))

/-- The line of a row of truth values. -/
def rowLine (trueSymbol falseSymbol : String) (row : List Bool) : String :=
  " ".intercalate (row.map fun value => if value then trueSymbol else falseSymbol)

/-- A sheet with symbols for the truth values. -/
def Sheet.block (trueSymbol falseSymbol : String) : Sheet → Block
  | failure line => .failure line
  | table header rows => .table (header :: rows.map (rowLine trueSymbol falseSymbol))

namespace Settings

variable {s : Settings}

/-- The sheet of a formula: that of the rows of its table that are wanted, each with its value behind it,
or the line that tells why there is no table. -/
def sheet (s : Settings) (formula : String) : Sheet :=
  match truthTable formula s.strict s.limit? with
  | .ok t => .table t.header ((t.shownRows s.ones).map fun row => row.1 ++ [row.2])
  | .error e => .failure (formula ++ ": " ++ e.text)

/-- The output for some formulas in some symbols: their sheets, with an empty line in front of each table
but the first. -/
def printed (s : Settings) (trueSymbol falseSymbol : String) (formulas : List String) : String :=
  unlines (blockLines false (formulas.map fun formula =>
    (s.sheet formula).block trueSymbol falseSymbol))

/-- The symbols that the settings ask for. -/
def symbols (s : Settings) : String × String := if s.binary then ("1", "0") else ("T", "F")

/-- A block is a sheet in the symbols of the settings. -/
theorem shownBlock_eq_sheet (s : Settings) (formula : String) :
    s.shownBlock formula = (s.sheet formula).block s.symbols.1 s.symbols.2 := by
  cases htable : truthTable formula s.strict s.limit? with
  | error e => simp only [shownBlock, sheet, htable, Sheet.block]
  | ok t =>
    have hlines : s.tableLines t = t.format s.symbols.1 s.symbols.2 s.ones := by
      rw [tableLines, symbols]
      cases s.binary with
      | false => rfl
      | true => exact t.binaryLines_eq_format s.ones
    simp only [shownBlock, sheet, htable, Sheet.block, hlines, TruthTable.format, List.map_map]
    rfl

/-- The report on formulas none of which lacks a bound is what is printed in the symbols of the
settings. -/
theorem report_eq_printed {formulas : List String}
    (h : ∀ formula ∈ nonblank formulas, ¬ s.Uncompared formula) :
    s.report formulas = .ok {
      exitCode := if (nonblank formulas).all s.tabled then 0 else 1
      output := s.printed s.symbols.1 s.symbols.2 (nonblank formulas) } := by
  have hblocks : s.shownBlock = fun formula => (s.sheet formula).block s.symbols.1 s.symbols.2 :=
    funext s.shownBlock_eq_sheet
  rw [report_eq_ok h, exitCode_shownBlocks, printed, hblocks]

end Settings

/-! ### The option for digits -/

/-- The same settings with tables in digits. -/
def Settings.inDigits (s : Settings) : Settings := { s with binary := true }

namespace Progress

/-- The same progress, with tables in digits. -/
def inDigits (p : Progress) : Progress := { p with settings := p.settings.inDigits }

theorem endGroup_inDigits (p : Progress) : p.inDigits.endGroup = p.endGroup.inDigits := by
  obtain ⟨settings, group, stray⟩ := p
  cases group <;> rfl

theorem operand_inDigits (p : Progress) (text : String) :
    p.inDigits.operand text = (p.operand text).inDigits := by
  obtain ⟨settings, group, stray⟩ := p
  cases group <;> rfl

theorem separator_inDigits (p : Progress) : p.inDigits.separator = p.separator.inDigits := by
  obtain ⟨settings, group, stray⟩ := p
  cases group <;> rfl

theorem set_inDigits (p : Progress) (use : Use) :
    p.inDigits.set use = (p.set use).map inDigits := by
  obtain ⟨key, value⟩ := use
  cases key with
  | maxVars =>
    simp only [set]
    split
    · rfl
    · split <;> rfl
  | _ => rfl

theorem setAll_inDigits (p : Progress) (uses : List Use) :
    p.inDigits.setAll uses = (p.setAll uses).map inDigits := by
  induction uses generalizing p with
  | nil => rfl
  | cons use uses ih =>
    simp only [setAll] at ih
    rw [setAll, setAll, List.foldlM_cons, List.foldlM_cons, set_inDigits]
    cases p.set use with
    | error stop => rfl
    | ok q => exact ih q

/-- What is said after an option is set comes to the same, up to the setting for digits. -/
theorem setAll_bind_inDigits (p : Progress) (uses : List Use) {later : List Word}
    (h : ∀ q : Progress, q.inDigits.takeWords later = (q.takeWords later).map Settings.inDigits) :
    (p.inDigits.endGroup.setAll uses >>= fun q => q.takeWords later) =
      (p.endGroup.setAll uses >>= fun q => q.takeWords later).map Settings.inDigits := by
  rw [endGroup_inDigits, setAll_inDigits]
  cases p.endGroup.setAll uses with
  | error stop => rfl
  | ok q => exact h q

/-- Words come to the same, up to the setting for digits. -/
theorem takeWords_inDigits (words : List Word) (p : Progress) :
    p.inDigits.takeWords words = (p.takeWords words).map Settings.inDigits := by
  -- an option may take the next word as its value, so two words may be done at once
  induction hn : words.length using Nat.strongRecOn generalizing words p with
  | ind n ih =>
    cases words with
    | nil =>
      have hstray : p.inDigits.stray = p.stray := rfl
      rw [takeWords, takeWords, hstray]
      cases p.stray <;> rfl
    | cons word words =>
      rw [List.length_cons] at hn
      have hwords (q : Progress) :
          q.inDigits.takeWords words = (q.takeWords words).map Settings.inDigits :=
        ih words.length (by omega) words q rfl
      cases word with
      | operand text =>
        rw [takeWords, takeWords, operand_inDigits]
        exact hwords _
      | separator =>
        rw [takeWords, takeWords, separator_inDigits]
        exact hwords _
      | unknown text =>
        rw [takeWords, takeWords, endGroup_inDigits]
        exact hwords { p.endGroup with stray := p.endGroup.stray ++ [text] }
      | option key attached =>
        rw [takeWords, takeWords]
        cases (attached.uses key).mapError Stop.misuse with
        | error stop => rfl
        | ok uses =>
          simp only [bind, Except.bind]
          cases uses.find? Use.awaits with
          | none => exact p.setAll_bind_inDigits uses hwords
          | some use =>
            cases words with
            | nil => rfl
            | cons next later =>
              rw [List.length_cons] at hn
              cases next with
              | operand value =>
                exact p.setAll_bind_inDigits (fillIn value uses)
                  fun q => ih later.length (by omega) later q rfl
              | _ => rfl

end Progress

/-- In front of any arguments the option for digits changes nothing but the setting for digits. -/
theorem readArguments_binary (arguments : List String) :
    readArguments ("--binary" :: arguments) = (readArguments arguments).map Settings.inDigits := by
  have hoption : classify "--binary" = .ok (.option .binary .nothing) := rfl
  rw [readArguments, readArguments, classifyAll_cons (by decide) hoption]
  cases classifyAll arguments with
  | error e => rfl
  | ok words =>
    show Progress.takeWords {} (.option .binary .nothing :: words) = _
    rw [Progress.takeWords]
    exact Progress.takeWords_inDigits words {}

/-! ### With and without the option -/

open Settings (nonblank)

/-- The text of a table in digits is that of the table with digits as symbols, and of the rows that are
left of its numbers. -/
theorem unlines_tableLines_of_binary {source : String} {strict : Bool} {maxVars : Option Int}
    {table : TruthTable} (h : truthTable source strict maxVars = .ok table) {s : Settings}
    (hbinary : s.binary = true) :
    unlines (s.tableLines table) = String.join ((table.format "1" "0" s.ones).map (· ++ "\n")) ∧
    ∃ numbers shown, table.array = .ok numbers ∧
      (if s.ones then TruthTable.select numbers table.values else .ok numbers) = .ok shown ∧
      unlines (s.tableLines table) = table.header ++ "\n" ++
        String.join (shown.map fun row => " ".intercalate (row.map toString) ++ "\n") := by
  have hlines : s.tableLines table = table.binaryLines s.ones := by
    rw [Settings.tableLines, if_pos hbinary]
  obtain ⟨numbers, shown, harray, hshown, hnumbers⟩ := binaryLines_eq_array h s.ones
  refine ⟨?_, numbers, shown, harray, hshown, ?_⟩
  · rw [hlines, TruthTable.binaryLines_eq_format]
    rfl
  · rw [hlines, hnumbers, unlines_cons, unlines, List.map_map]
    rfl

/-- Settings that differ in the setting for digits only lead to the same output up to the symbols, or to
the same response, without any table. -/
theorem respond_of_settings {files : Files} {arguments others : List String} {s : Settings}
    (h : readArguments arguments = .ok { s with binary := false })
    (hothers : readArguments others = .ok { s with binary := true }) :
    (∃ fromFile exitCode, files.supplied s = .ok fromFile ∧
      files.respond arguments =
        .ok { exitCode, output := s.printed "T" "F" (nonblank (s.formulas ++ fromFile)) } ∧
      files.respond others =
        .ok { exitCode, output := s.printed "1" "0" (nonblank (s.formulas ++ fromFile)) }) ∨
    (∀ fromFile, files.supplied s = .ok fromFile →
      ∃ formula ∈ nonblank (s.formulas ++ fromFile), s.Uncompared formula) ∧
      files.respond others = files.respond arguments := by
  cases hsupplied : files.supplied s with
  | error cause =>
    refine .inr ⟨fun _ hfile => (nomatch hfile), ?_⟩
    rw [respond_of_readArguments h, respond_of_readArguments hothers]
    show Settings.respond _ (files.supplied s) = Settings.respond _ (files.supplied s)
    rw [hsupplied]
    cases cause <;> rfl
  | ok fromFile =>
    rw [respond_eq_report h hsupplied, respond_eq_report hothers hsupplied]
    by_cases hbound : ∃ formula ∈ nonblank (s.formulas ++ fromFile), s.Uncompared formula
    · refine .inr ⟨fun found hfound => ?_, ?_⟩
      · cases hfound
        exact hbound
      · have hletters : Settings.report { s with binary := false } (s.formulas ++ fromFile) =
            .error .noBound := Settings.report_eq_error hbound
        have hdigits : Settings.report { s with binary := true } (s.formulas ++ fromFile) =
            .error .noBound := Settings.report_eq_error hbound
        exact hdigits.trans hletters.symm
    · have hall : ∀ formula ∈ nonblank (s.formulas ++ fromFile), ¬ s.Uncompared formula :=
        fun formula hmem hformula => hbound ⟨formula, hmem, hformula⟩
      exact .inl ⟨fromFile, _, rfl, Settings.report_eq_printed hall, Settings.report_eq_printed hall⟩

/-- **Tables in digits** are the tables in letters with other symbols.  The text of a table in digits is
that of its lines with digits as symbols, though it is written from the numbers that are left of the
table.  Arguments that lead to settings which differ in nothing else print the same up to the symbols,
with the same exit code: the same error lines, headers and empty lines, and the same rows; only where
there is no file, or a formula lacks a bound, there is no table and the response is the same.  And in
front of any arguments the option for digits changes only this setting, so it does nothing to arguments
that are not understood. -/
theorem respond_binary :
    (∀ source strict maxVars table, truthTable source strict maxVars = .ok table →
      ∀ s : Settings, s.binary = true →
        unlines (s.tableLines table) =
          String.join ((table.format "1" "0" s.ones).map (· ++ "\n")) ∧
        ∃ numbers shown, table.array = .ok numbers ∧
          (if s.ones then TruthTable.select numbers table.values else .ok numbers) = .ok shown ∧
          unlines (s.tableLines table) = table.header ++ "\n" ++
            String.join (shown.map fun row => " ".intercalate (row.map toString) ++ "\n")) ∧
    (∀ (files : Files) arguments others (s : Settings),
      readArguments arguments = .ok { s with binary := false } →
      readArguments others = .ok { s with binary := true } →
      (∃ fromFile exitCode, files.supplied s = .ok fromFile ∧
        files.respond arguments =
          .ok { exitCode, output := s.printed "T" "F" (nonblank (s.formulas ++ fromFile)) } ∧
        files.respond others =
          .ok { exitCode, output := s.printed "1" "0" (nonblank (s.formulas ++ fromFile)) }) ∨
      (∀ fromFile, files.supplied s = .ok fromFile →
        ∃ formula ∈ nonblank (s.formulas ++ fromFile), s.Uncompared formula) ∧
        files.respond others = files.respond arguments) ∧
    ∀ (files : Files) arguments,
      readArguments ("--binary" :: arguments) =
        (readArguments arguments).map (fun s => { s with binary := true }) ∧
      ∀ stop, readArguments arguments = .error stop →
        files.respond ("--binary" :: arguments) = files.respond arguments := by
  refine ⟨fun _ _ _ _ h _ => unlines_tableLines_of_binary h, fun _ _ _ _ => respond_of_settings, ?_⟩
  intro files arguments
  refine ⟨readArguments_binary arguments, fun stop hstop => ?_⟩
  rw [respond_eq_responseTo, respond_eq_responseTo, readArguments_binary, hstop]
  rfl

/-- A table, an error line and a table without variables, of which only the true rows are shown: the
exit code and all lines but the rows are the same. -/
theorem respond_binary_ones :
    let files := Directory.files ⟨[]⟩
    let arguments := ["--ones", "p <-> q", "p &", "⊤"]
    readArguments ("--binary" :: arguments) =
        .ok { formulas := ["p <-> q", "p &", "⊤"], ones := true, binary := true } ∧
      ∃ exitCode,
        files.respond arguments = .ok { exitCode, output := "p q p ↔ q\nF F T\nT T T\np &: " ++
          "Parser error at position 3: Expected variable, literal or '(', found end of formula\n" ++
          "\n⊤\nT\n" } ∧
        files.respond ("--binary" :: arguments) = .ok { exitCode, output := "p q p ↔ q\n0 0 1\n1 1 1\np &: " ++
          "Parser error at position 3: Expected variable, literal or '(', found end of formula\n" ++
          "\n⊤\n1\n" } := by
  intro files arguments
  let s : Settings := { formulas := ["p <-> q", "p &", "⊤"], ones := true }
  obtain ⟨_, hsymbols, hoption⟩ := respond_binary
  have harguments : readArguments arguments = .ok { s with binary := false } := by decide +kernel
  have hbinary : readArguments ("--binary" :: arguments) = .ok { s with binary := true } := by
    rw [(hoption files arguments).1, harguments]
    rfl
  have hsupplied : files.supplied s = .ok [] := rfl
  refine ⟨hbinary, ?_⟩
  have hletters : s.printed "T" "F" (nonblank s.formulas) = "p q p ↔ q\nF F T\nT T T\np &: " ++
      "Parser error at position 3: Expected variable, literal or '(', found end of formula\n" ++
      "\n⊤\nT\n" := by decide +kernel
  have hdigits : s.printed "1" "0" (nonblank s.formulas) = "p q p ↔ q\n0 0 1\n1 1 1\np &: " ++
      "Parser error at position 3: Expected variable, literal or '(', found end of formula\n" ++
      "\n⊤\n1\n" := by decide +kernel
  rcases hsymbols files _ _ s harguments hbinary with ⟨fromFile, exitCode, hfile, hwithout, hwith⟩ |
    ⟨hbound, _⟩
  · rw [hsupplied] at hfile
    cases hfile
    rw [List.append_nil, hletters] at hwithout
    rw [List.append_nil, hdigits] at hwith
    exact ⟨exitCode, hwithout, hwith⟩
  · obtain ⟨_, _, hmax, _⟩ := hbound [] hsupplied
    cases hmax

end CommandLine

end Propositional
