import Propositional.CommandLine.Arguments
import Propositional.CommandLine.Files
import Propositional.Table.Layout

/-!
# What the program prints

* `Abort` — why a run ends without a response;
* `Settings.block` — what is printed for one formula: an error line or a table;
* `blockLines` — blocks one after the other, with an empty line in front of each table but the first;
* `Settings.report` — the output and the exit code for some formulas;
* `Settings.respond` — the same, given the outcome of reading the file of the settings;
* `Files.respond` — the same for an argument list, in any system.
-/

namespace Propositional.CommandLine

/-- The exit code, what is printed, and what is said about wrong usage. -/
structure Response where
  exitCode : UInt8
  output : String
  complaint : String := ""
  deriving DecidableEq, Repr

/-- Why a run ends without a response. -/
inductive Abort where
  /-- The formula file is not valid UTF-8. -/
  | notUtf8
  /-- The name of the formula file holds a character that no name may hold. -/
  | malformedName
  /-- The bound on the number of variables is left out, and a formula is to be compared with it. -/
  | noBound
  deriving DecidableEq, Repr

/-- The wording of an abort. -/
def Abort.message : Abort → String
  | notUtf8 => "the formula file is not valid UTF-8"
  | malformedName => "the name of the formula file is malformed"
  | noBound => "the largest number of variables is missing"

/-- What is printed for one formula. -/
inductive Block where
  | failure (line : String)
  | table (lines : List String)
  deriving DecidableEq, Repr

/-- Does a block report an error? -/
def Block.isFailure : Block → Bool
  | failure _ => true
  | table _ => false

/-- The lines of blocks; an empty line stands in front of every table but the first.  `later` tells
that a table has been printed before. -/
def blockLines (later : Bool) : List Block → List String
  | [] => []
  | .failure line :: blocks => line :: blockLines later blocks
  | .table lines :: blocks =>
    (if later then [""] else []) ++ lines ++ blockLines true blocks

namespace Settings

/-- The lines of a table as the settings want it. -/
def tableLines (s : Settings) (t : TruthTable) : List String :=
  if s.binary then t.binaryLines s.ones else t.format "T" "F" s.ones

/-- What is printed for a formula that may have so many variables. -/
def blockWithin (s : Settings) (count : Int) (formula : String) : Block :=
  match truthTable formula s.strict (some count) with
  | .ok t => .table (s.tableLines t)
  | .error e => .failure (formula ++ ": " ++ e.text)

/-- What is printed for a formula.  Without a bound only the formulas that cannot be read have a
block: a formula that can be read is compared with the bound. -/
def block (s : Settings) (formula : String) : Except Abort Block :=
  match s.maxVars with
  | .atMost count => .ok (s.blockWithin count formula)
  | .leftOut =>
    match readText formula s.strict with
    | .ok _ => .error .noBound
    | .error e => .ok (.failure (formula ++ ": " ++ e.text))

/-- What is printed for some formulas; blank ones are passed over.  The exit code tells whether any
has failed. -/
def report (s : Settings) (formulas : List String) : Except Abort Response := do
  let blocks ← (formulas.filter fun formula => !Text.isBlankText formula.toList).mapM s.block
  return {
    exitCode := if blocks.any Block.isFailure then 1 else 0
    output := unlines (blockLines false blocks) }

/-- What is printed when the file of the settings has been read, or could not be opened. -/
def respond (s : Settings) (fromFile : Except ReadError (List String)) : Except Abort Response :=
  match fromFile with
  | .ok formulas => s.report (s.formulas ++ formulas)
  | .error (.cannotOpen e) =>
    .ok { exitCode := 1, output := unlines [s.file ++ ": " ++ e.text s.file] }
  | .error .notUtf8 => .error .notUtf8
  | .error .malformedName => .error .malformedName

end Settings

/-- What is printed when the arguments lead to no run. -/
def Stop.response : Stop → Response
  | help => { exitCode := 0, output := helpText }
  | misuse e =>
    { exitCode := 2, output := "",
      complaint := usageText ++ "proptable: error: " ++ e.message ++ "\n" }

/-- The formulas that the file of the settings supplies: none if no file is named. -/
def Files.supplied (files : Files) (s : Settings) : Except ReadError (List String) :=
  if s.file.isEmpty then .ok [] else files.formulas s.file

/-- What is printed for an argument list in a system with these files. -/
def Files.respond (files : Files) (arguments : List String) : Except Abort Response :=
  match readArguments arguments with
  | .error stop => .ok stop.response
  | .ok s => s.respond (files.supplied s)

end Propositional.CommandLine
