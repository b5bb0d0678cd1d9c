import Propositional.Text.Integer
import Propositional.Text.Quoted

/-!
# The options of the command line

* `OptionKey` — the options, with their short and long names (`shortOptions`, `longOptions`);
* `Settings` — what the options say, with the `Bound` on the number of variables;
* `UsageError` — arguments that cannot be understood;
* `usageText`, `helpText` — the texts that explain the options.
-/

namespace Propositional.CommandLine

/-- The options. -/
inductive OptionKey where
  | help
  | file
  | ones
  | binary
  | strict
  | maxVars
  deriving DecidableEq, Repr

/-- Does a value belong to an option? -/
def OptionKey.takesValue : OptionKey → Bool
  | file => true
  | maxVars => true
  | _ => false

/-- The options with a name of one letter. -/
def shortOptions : List (Char × OptionKey) := [('h', .help), ('f', .file)]

/-- The long names of the options. -/
def longOptions : List (List Char × OptionKey) :=
  [("help".toList, .help), ("file".toList, .file), ("ones".toList, .ones),
    ("binary".toList, .binary), ("strict".toList, .strict), ("max-vars".toList, .maxVars)]

/-- How many variables a formula may have unless an option says otherwise. -/
def defaultMaxVars : Int := 20

/-- How many variables a formula may have. -/
inductive Bound where
  | atMost (count : Int)
  /-- The option is there, but its value is left out: there is nothing to compare with. -/
  | leftOut
  deriving DecidableEq, Repr

/-- What the command line asks for: formulas, a file with more of them (no file if the name is
empty), and how tables are made and shown. -/
structure Settings where
  formulas : List String := []
  file : String := ""
  ones : Bool := false
  binary : Bool := false
  strict : Bool := false
  maxVars : Bound := .atMost defaultMaxVars
  deriving DecidableEq, Repr, Inhabited

/-- Why arguments cannot be understood. -/
inductive UsageError where
  /-- An argument that begins several long names. -/
  | ambiguous (argument : String) (names : List String)
  /-- An option without the value that belongs to it. -/
  | missingValue (key : OptionKey)
  /-- A value for an option that takes none. -/
  | unexpectedValue (key : OptionKey) (value : String)
  /-- A value that is no whole number. -/
  | notInteger (value : String)
  /-- Arguments that nothing takes. -/
  | unrecognized (arguments : List String)
  deriving DecidableEq, Repr

/-- The names of an option in messages. -/
def OptionKey.label : OptionKey → String
  | help => "-h/--help"
  | file => "-f/--file"
  | ones => "--ones"
  | binary => "--binary"
  | strict => "--strict"
  | maxVars => "--max-vars"

/-- The wording of a usage error. -/
def UsageError.message : UsageError → String
  | ambiguous argument names =>
      "ambiguous option: " ++ argument ++ " could match " ++ ", ".intercalate names
  | missingValue key => "argument " ++ key.label ++ ": expected one argument"
  | unexpectedValue key value =>
      "argument " ++ key.label ++ ": ignored explicit argument " ++ Text.quoted value
  | notInteger value =>
      "argument " ++ OptionKey.maxVars.label ++ ": invalid int value: " ++ Text.quoted value
  | unrecognized arguments => "unrecognized arguments: " ++ " ".intercalate arguments

/-- The lines that show how the program is called. -/
def usageText : String :=
  "usage: proptable [-h] [-f FILE] [--ones] [--binary] [--strict]\n" ++
  "                 [--max-vars MAX_VARS]\n" ++
  "                 [FORMULA ...]\n"

/-- The help text. -/
def helpText : String :=
  usageText ++
  "\n" ++
  "Truth-table generator for propositional formulas\n" ++
  "\n" ++
  "positional arguments:\n" ++
  "  FORMULA               Formula to show the truth table for (e.g. 'p & (q ->\n" ++
  "                        r)')\n" ++
  "\n" ++
  "options:\n" ++
  "  -h, --help            show this help message and exit\n" ++
  "  -f FILE, --file FILE  Read formulas from a file, one per line ('#' starts a\n" ++
  "                        comment)\n" ++
  "  --ones                Show only the rows where the formula is true\n" ++
  "  --binary              Print rows as 0/1 instead of F/T\n" ++
  "  --strict              Reject tokens left after a complete formula\n" ++
  "  --max-vars MAX_VARS   Largest number of variables to enumerate (default: 20)\n"

end Propositional.CommandLine
