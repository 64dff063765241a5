import Entitlement.CommandLine.Path
import Entitlement.CommandLine.Run
import Entitlement.Environment.VariableFile
import Entitlement.Ordered.Map

/-!
A run inside one folder: files under their names, no folders in it. Variables may also come from
the folder's `.env` file; a value there that no variable can hold breaks the run off before anything
else is looked at. The outcome of a run is its exit code and what it leaves behind: the folder and
the texts of both standard streams.
-/

namespace Entitlement.CommandLine

/-- The files of a folder by name. -/
abbrev Folder := OrderedMap String String

namespace Folder

/-- Reads a file. The files of the system hold no document, whatever their text is; they read as
empty here. -/
def read (folder : Folder) (path : String) : Option String :=
  match Place.ofPath? path with
  | some (.file name) => folder.get? name
  | some (.sink .standardOutput) | some (.sink .standardError) => none
  | some (.sink _) => some ""
  | _ => none

/-- An environment with the variables of the folder's `.env` file. -/
def extend? (folder : Folder) (environment : Environment) : Option Environment :=
  match folder.read ".env" with
  | some text => Environment.VariableFile.addFile? environment text
  | none => some environment

end Folder

/-- What a run leaves behind. -/
structure Traces where
  folder : Folder
  printed : String
  complaints : String

namespace Traces

/-- Writes one file. A file that is there is replaced; a stream goes on. -/
def write (traces : Traces) (output : Output) : Except Failure Traces :=
  match Place.ofPath? output.path with
  | some (.file name) =>
    return { traces with folder := traces.folder.insert name output.text }
  | some .stray | some (.sink .swallowing) => return traces
  | some (.sink .refusing) =>
    if output.text.isEmpty then return traces else throw output.unwritten
  | some (.sink .standardOutput) =>
    return { traces with printed := traces.printed ++ output.text }
  | some (.sink .standardError) =>
    return { traces with complaints := traces.complaints ++ output.text }
  | _ => throw output.unopened

/-- Writes files in turn until one cannot be written. -/
def writeAll (traces : Traces) : List Output → Traces × Option Failure
  | [] => (traces, none)
  | output :: rest =>
    match traces.write output with
    | .ok traces => traces.writeAll rest
    | .error failure => (traces, some failure)

/-- Adds the line that reports a failure. -/
def complain (traces : Traces) (failure : Failure) : Traces :=
  { traces with complaints := traces.complaints ++ failure.line ++ "\n" }

end Traces

structure Outcome where
  code : Nat
  traces : Traces

/-- The exit code of a run that breaks off. -/
def brokenOff : Nat := 101

def valueRefusal : String := "A variable cannot hold a NUL character\n"

def identifierRefusal : String := "An identifier cannot be counted any further\n"

/-- A run in a folder, with the variables of the folder's `.env` file added to the environment. -/
def runIn (folder : Folder) (environment : Environment) (arguments : List String) : Outcome :=
  match folder.extend? environment with
  | none => ⟨brokenOff, folder, "", valueRefusal⟩
  | some environment =>
    match run environment folder.read arguments with
    | .help => ⟨0, folder, helpText, ""⟩
    | .usage => ⟨2, folder, "", usageText⟩
    | .failed failure => ⟨1, Traces.complain ⟨folder, "", ""⟩ failure⟩
    | .exhausted => ⟨brokenOff, folder, "", identifierRefusal⟩
    | .done printed outputs =>
      match Traces.writeAll ⟨folder, printed, ""⟩ outputs with
      | (traces, none) => ⟨0, traces⟩
      | (traces, some failure) => ⟨1, traces.complain failure⟩

end Entitlement.CommandLine
