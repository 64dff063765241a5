import Entitlement.CommandLine.Folder

/-!
The program: a run over the files and the environment of the process.
-/

namespace Entitlement.CommandLine

/-- The text of a file, if it can be read. -/
def readText (path : String) : IO (Option String) := do
  try
    return some (← IO.FS.readFile path)
  catch _ =>
    return none

/-- The variables of the process. -/
def processEnvironment : IO Environment := do
  let text := (← readText "/proc/self/environ").getD ""
  return .ofLines (text.splitOn "\x00")

/-- Reads the two files that the arguments name, whatever becomes of them. -/
def readInputs (arguments : List String) : IO Folder := do
  match Arguments.parse arguments with
  | .error _ => return ∅
  | .ok given =>
    let mut folder : Folder := ∅
    for path in [given.rules, given.ledger] do
      if let some text ← readText path then
        folder := folder.insert path text
    return folder

/-- Opens a file to write to it, if that is possible. -/
def openToWrite (path : String) : IO (Option IO.FS.Handle) := do
  try
    return some (← IO.FS.Handle.mk path .write)
  catch _ =>
    return none

/-- Writes files in turn until one cannot be written. -/
def writeOutputs : List Output → IO (Option Failure)
  | [] => return none
  | output :: rest => do
    match ← openToWrite output.path with
    | none => return some output.unopened
    | some handle =>
      try
        handle.putStr output.text
        handle.flush
      catch _ =>
        return some output.unwritten
    writeOutputs rest

def fail (failure : Failure) : IO UInt32 := do
  (← IO.getStderr).putStrLn failure.line
  return 1

/-- Carries a run out and answers its exit code. -/
def Run.perform : Run → IO UInt32
  | .help => do
    IO.print helpText
    return 0
  | .usage => do
    (← IO.getStderr).putStr usageText
    return 2
  | .failed failure => fail failure
  | .exhausted => do
    (← IO.getStderr).putStr identifierRefusal
    return brokenOff.toUInt32
  | .done printed outputs => do
    IO.print printed
    match ← writeOutputs outputs with
    | none => return 0
    | some failure => fail failure

end Entitlement.CommandLine

open Entitlement CommandLine

def main (arguments : List String) : IO UInt32 := do
  let environment ← processEnvironment
  let extended? := match ← readText ".env" with
    | some text => Environment.VariableFile.addFile? environment text
    | none => some environment
  match extended? with
  | none =>
    (← IO.getStderr).putStr valueRefusal
    return brokenOff.toUInt32
  | some environment =>
    let inputs ← readInputs arguments
    (run environment inputs.get? arguments).perform
