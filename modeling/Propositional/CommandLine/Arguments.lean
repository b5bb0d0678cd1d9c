import Propositional.CommandLine.Settings

/-!
# Reading the arguments

First every argument is classified by itself (`Word`): as an option with what is attached to it, as
an unknown option, as an operand, or as the separator `--`, behind which all are operands.  Then the
words are taken in order.

* `classify`, `classifyAll` — the words;
* `Use`, `Attached.uses` — the options that one word stands for, with their values;
* `Progress` — what the words have said so far;
* `readArguments` — the settings, or the reason to stop.

The operands that are formulas stand together: those behind an option that follows such an operand
are not taken.
-/

namespace Propositional.CommandLine

/-! ### Single arguments -/

/-- What is attached to an option inside its argument. -/
inductive Attached where
  | nothing
  /-- The text behind the equals sign of a long option. -/
  | toLong (text : List Char)
  /-- The text behind a short option, without an equals sign between them. -/
  | toShort (text : List Char)
  deriving DecidableEq, Repr

/-- An argument by itself. -/
inductive Word where
  | operand (text : String)
  | separator
  | option (key : OptionKey) (attached : Attached)
  | unknown (text : String)
  deriving DecidableEq, Repr

/-- Is the text behind a minus sign a number?  Digits of all scripts count, and a line feed may
follow. -/
def isNumber (text : List Char) : Bool :=
  let body := if text.getLast? = some '\n' then text.dropLast else text
  let fraction := body.dropWhile Text.isDecimalDigit
  match fraction with
  | [] => !body.isEmpty
  | '.' :: digits => !digits.isEmpty && digits.all Text.isDecimalDigit
  | _ => false

/-- An argument that begins like an option but is none: a negative number and an argument with a
space are operands. -/
def classifyOther (text : String) : Word :=
  if isNumber (text.toList.drop 1) || text.toList.contains ' ' then .operand text
  else .unknown text

/-- An argument with two dashes in front of `body`.  A long name may be cut short as long as it is the
beginning of one name only. -/
def classifyLong (text : String) (body : List Char) : Except UsageError Word :=
  let name := body.takeWhile (· != '=')
  let attached :=
    match body.dropWhile (· != '=') with
    | [] => .nothing
    | _ :: value => .toLong value
  match longOptions.filter fun entry => name.isPrefixOf entry.1 with
  | [] => .ok (classifyOther text)
  | [entry] => .ok (.option entry.2 attached)
  | entries =>
    .error (.ambiguous text (entries.map fun entry => "--" ++ String.ofList entry.1))

/-- An argument with one dash in front of the letter `c` and the text `rest`.  One equals sign behind
the letter of an option is passed over. -/
def classifyShort (text : String) (c : Char) (rest : List Char) : Word :=
  match shortOptions.lookup c, rest with
  | some key, [] => .option key .nothing
  | some key, '=' :: value => .option key (.toShort value)
  | some key, value => .option key (.toShort value)
  | none, _ => classifyOther text

/-- The word of an argument other than the separator. -/
def classify (text : String) : Except UsageError Word :=
  match text.toList with
  | '-' :: '-' :: body => classifyLong text body
  | '-' :: c :: rest => .ok (classifyShort text c rest)
  | _ => .ok (.operand text)

/-- The words of all arguments. -/
def classifyAll : List String → Except UsageError (List Word)
  | [] => .ok []
  | text :: rest =>
    if text = "--" then .ok (.separator :: rest.map .operand)
    else do
      let word ← classify text
      let words ← classifyAll rest
      return word :: words

/-! ### Options of one word -/

/-- An option with the value attached to it. -/
structure Use where
  key : OptionKey
  value : Option String := none
  deriving DecidableEq, Repr

/-- Does the option still need a value from the next argument? -/
def Use.awaits (use : Use) : Bool := use.key.takesValue && use.value.isNone

/-- The options of a word that begins with the short option `key` and goes on with a text.  The text
is the value of the option, or, if it takes none, a sequence of further short options. -/
def shortUses (key : OptionKey) (text : List Char) : Except UsageError (List Use) :=
  if key.takesValue then .ok [⟨key, some (String.ofList text)⟩]
  else
    match text with
    | [] => .error (.unexpectedValue key "")
    | c :: rest =>
      match shortOptions.lookup c, rest with
      | none, _ => .error (.unexpectedValue key (String.ofList text))
      | some next, [] => .ok [⟨key, none⟩, ⟨next, none⟩]
      | some next, rest => do
        let uses ← shortUses next rest
        return ⟨key, none⟩ :: uses

/-- The options that a word with the option `key` stands for. -/
def Attached.uses (key : OptionKey) : Attached → Except UsageError (List Use)
  | nothing => .ok [⟨key, none⟩]
  | toLong text =>
    if key.takesValue then .ok [⟨key, some (String.ofList text)⟩]
    else .error (.unexpectedValue key (String.ofList text))
  | toShort text => shortUses key text

/-- The options of a word with the awaited value filled in. -/
def fillIn (value : String) (uses : List Use) : List Use :=
  uses.map fun use => if use.awaits then { use with value := some value } else use

/-- The value that an option is given.  Two dashes leave it out. -/
def Use.given (use : Use) : Option String := use.value.filter (· != "--")

/-! ### All arguments -/

/-- Why the arguments lead to no run: help is asked for, or they are not understood. -/
inductive Stop where
  | help
  | misuse (e : UsageError)
  deriving DecidableEq, Repr

/-- How far the group of formulas is. -/
inductive Group where
  | waiting
  | taking
  | closed
  deriving DecidableEq, Repr

/-- What the words have said so far, with the arguments that nothing takes. -/
structure Progress where
  settings : Settings := {}
  group : Group := .waiting
  stray : List String := []
  deriving DecidableEq, Repr

namespace Progress

/-- An option ends the group of formulas. -/
def endGroup (p : Progress) : Progress :=
  if p.group = .taking then { p with group := .closed } else p

/-- Take an operand as a formula. -/
def operand (text : String) (p : Progress) : Progress :=
  if p.group = .closed then { p with stray := p.stray ++ [text] }
  else
    { p with
      settings := { p.settings with formulas := p.settings.formulas ++ [text] }
      group := .taking }

/-- Pass the separator. -/
def separator (p : Progress) : Progress :=
  if p.group = .closed then { p with stray := p.stray ++ ["--"] } else { p with group := .taking }

/-- Set one option.  Without its value, `file` names no file. -/
def set (p : Progress) (use : Use) : Except Stop Progress :=
  match use.key with
  | .help => .error .help
  | .file => .ok { p with settings := { p.settings with file := use.given.getD "" } }
  | .ones => .ok { p with settings := { p.settings with ones := true } }
  | .binary => .ok { p with settings := { p.settings with binary := true } }
  | .strict => .ok { p with settings := { p.settings with strict := true } }
  | .maxVars =>
    match use.given with
    | none => .ok { p with settings := { p.settings with maxVars := .leftOut } }
    | some text =>
      match Text.readInteger text with
      | some count => .ok { p with settings := { p.settings with maxVars := .atMost count } }
      | none => .error (.misuse (.notInteger text))

/-- Set the options of a word. -/
def setAll (uses : List Use) (p : Progress) : Except Stop Progress := uses.foldlM set p

/-- Take the words in order. -/
def takeWords (p : Progress) : List Word → Except Stop Settings
  | [] =>
    if p.stray.isEmpty then .ok p.settings else .error (.misuse (.unrecognized p.stray))
  | .operand text :: words => (p.operand text).takeWords words
  | .separator :: words => p.separator.takeWords words
  | .unknown text :: words =>
    let q := p.endGroup
    { q with stray := q.stray ++ [text] }.takeWords words
  | .option key attached :: words => do
    let uses ← (attached.uses key).mapError .misuse
    match uses.find? Use.awaits with
    | none =>
      let q ← p.endGroup.setAll uses
      q.takeWords words
    | some use =>
      match words with
      | .operand value :: later =>
        let q ← p.endGroup.setAll (fillIn value uses)
        q.takeWords later
      | _ => .error (.misuse (.missingValue use.key))

end Progress

/-- The settings that the arguments ask for. -/
def readArguments (arguments : List String) : Except Stop Settings := do
  let words ← (classifyAll arguments).mapError .misuse
  ({} : Progress).takeWords words

end Propositional.CommandLine
