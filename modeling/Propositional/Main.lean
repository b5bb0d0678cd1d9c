import Propositional.CommandLine.Report

/-!
# The program

Reads the formula file, if one is named, and prints the response.
-/

namespace Propositional.CommandLine

/-- The number of an error from the code that the system gives, which may be negated. -/
def errorNumber (code : UInt32) : Nat :=
  if code.toNat < 0x80000000 then code.toNat else 0x100000000 - code.toNat

/-- Why the system has not opened a file. -/
def openErrorOf : IO.Error → OpenError
  | .noFileOrDirectory _ code reason => .ofNumber (errorNumber code) reason
  | .inappropriateType _ code reason => .ofNumber (errorNumber code) reason
  | .invalidArgument _ code reason => .ofNumber (errorNumber code) reason
  | .permissionDenied _ code reason => .ofNumber (errorNumber code) reason
  | e => .system 0 (toString e)

/-- Open the file with a given name and read it. -/
def readFile (name : String) : IO (Except OpenError ByteArray) := do
  try return .ok (← IO.FS.readBinFile name)
  catch e => return .error (openErrorOf e)

/-- The formulas of the file with a given name. -/
def readFormulaFile (name : String) : IO (Except ReadError (List String)) := do
  let outcome ← readFile name
  return Files.formulas ⟨fun _ => outcome⟩ name

/-- Print a response. -/
def printResponse (response : Response) : IO UInt32 := do
  IO.print response.output
  IO.eprint response.complaint
  return response.exitCode.toUInt32

/-- Read the arguments and the formula file, and print the response. -/
def runProgram (arguments : List String) : IO UInt32 := do
  match readArguments arguments with
  | .error stop => printResponse stop.response
  | .ok s =>
    let fromFile ← if s.file.isEmpty then pure (.ok []) else readFormulaFile s.file
    match s.respond fromFile with
    | .ok response => printResponse response
    | .error abort => do
      IO.eprintln abort.message
      return 1

end Propositional.CommandLine

def main (arguments : List String) : IO UInt32 :=
  Propositional.CommandLine.runProgram arguments
