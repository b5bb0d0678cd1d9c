import Propositional.FormulaFile
import Propositional.Text.Quoted

/-!
# Files by name

What the program asks of the system around it is to open the file that the arguments name.

* `OpenError` — why a name opens no file, with its number and wording;
* `Files` — a system, by what each name opens; nothing else is known about it;
* `Files.formulas` — the formulas in the file that a name opens.
-/

namespace Propositional.CommandLine

/-- Why a file cannot be opened. -/
inductive OpenError where
  | notFound
  | notDirectory
  | isDirectory
  | nameTooLong
  | accessDenied
  /-- Any other reason that the system gives. -/
  | system (number : Nat) (reason : String)
  deriving DecidableEq, Repr

namespace OpenError

/-- The number of an error. -/
def number : OpenError → Nat
  | notFound => 2
  | notDirectory => 20
  | isDirectory => 21
  | nameTooLong => 36
  | accessDenied => 13
  | system number _ => number

/-- The wording of an error. -/
def reason : OpenError → String
  | notFound => "No such file or directory"
  | notDirectory => "Not a directory"
  | isDirectory => "Is a directory"
  | nameTooLong => "File name too long"
  | accessDenied => "Permission denied"
  | system _ reason => reason

/-- The error with a given number; its reason is used where the number is not known. -/
def ofNumber (number : Nat) (reason : String) : OpenError :=
  match [notFound, notDirectory, isDirectory, nameTooLong, accessDenied].find?
      fun e => e.number == number with
  | some e => e
  | none => system number reason

/-- The report of an error on opening a name. -/
def text (name : String) (e : OpenError) : String :=
  "[Errno " ++ toString e.number ++ "] " ++ e.reason ++ ": " ++ Text.quoted name

end OpenError

/-- Why a file gives no formulas. -/
inductive ReadError where
  | cannotOpen (e : OpenError)
  /-- The bytes are not valid UTF-8. -/
  | notUtf8
  /-- The name holds a character that no name may hold. -/
  | malformedName
  deriving DecidableEq, Repr

/-- The files of a system: for each name the bytes of the file that it opens, or why it opens none.  Any name
may open any file, absolute or not, and fail for any reason. -/
structure Files where
  read : String → Except OpenError ByteArray

namespace Files

/-- The formulas of the file that a name opens. -/
def formulas (files : Files) (name : String) : Except ReadError (List String) :=
  if name.toList.contains '\x00' then .error .malformedName
  else
    match files.read name with
    | .error e => .error (.cannotOpen e)
    | .ok bytes =>
      match FormulaFile.formulasOfBytes bytes with
      | some formulas => .ok formulas
      | none => .error .notUtf8

end Files

end Propositional.CommandLine
