import Entitlement.CommandLine.Arguments
import Entitlement.CommandLine.Help
import Entitlement.Document.Report
import Entitlement.Environment.Settings
import Entitlement.Scan.Run
import Entitlement.Text.JsonParser
import Entitlement.Text.JsonPrinter

/-!
One run of the command line: settings from the environment, rules and ledger from files, a scan of
one person in a transaction, a summary or a JSON report, then tables and the new ledger in files. A
run is described by what it prints, the files it writes in turn, and how it ends; the first file that
cannot be written ends it with the failure that goes with that file. When identifiers are exhausted the
run breaks off, with nothing printed or written.
-/

namespace Entitlement.CommandLine

open Document Text

/-- Why a run fails. -/
inductive Failure where
  | environment
  | settings
  | readRules (path : String)
  | parseRules (path : String)
  | readLedger (path : String)
  | parseLedger (path : String)
  | unknownPerson (person : PersonId)
  | scan (person : PersonId)
  | createTable (path : String)
  | writeProblemTable
  | writeBalanceTable
  | writeLedger (path : String)
deriving DecidableEq

def Failure.message : Failure → String
  | environment => "Failed to read ABSENCE_* environment"
  | settings => "Invalid scan configuration"
  | readRules path => "Failed to read rule tree: " ++ path
  | parseRules path => "Failed to parse rule tree: " ++ path
  | readLedger path => "Failed to read ledger: " ++ path
  | parseLedger path => "Failed to parse ledger: " ++ path
  | unknownPerson person => s!"Person {person} is not in the ledger fixture"
  | scan person => s!"Scan of person {person} failed, ledger rolled back"
  | createTable path => "Failed to create " ++ path
  | writeProblemTable => "Failed to write troubles CSV"
  | writeBalanceTable => "Failed to write periods CSV"
  | writeLedger path => "Failed to write ledger: " ++ path

/-- The line that reports a failure. -/
def Failure.line (failure : Failure) : String :=
  "Error: " ++ failure.message

/-- A file to be written, and the failures if it does not open and if it does not take its text. -/
structure Output where
  path : String
  text : String
  unopened : Failure
  unwritten : Failure

/-- How a run ends, files to be written apart. -/
inductive Run where
  | help
  | usage
  | failed (failure : Failure)
  | exhausted
  | done (printed : String) (outputs : List Output)

def balanceLine (balance : Balance) : String :=
  let unit := balance.unit.getD .units
  let remaining := balance.remaining.elim "unlimited" fun r => (r.toDecimal unit).toText
  "  " ++ balance.category ++ " " ++ balance.first.toText ++ ".." ++ balance.last.toText ++
    ": taken " ++ (balance.taken.toDecimal unit).toText ++ ", remaining " ++ remaining ++
    if balance.compromised then " (compromised)" else ""

/-- A scan report in plain text. -/
def plainText (report : Report) : String :=
  let heading :=
    s!"Person {report.person} from {report.start}: {report.scannedAbsences} absences, " ++
      s!"{report.chainsBuilt} chains"
  let writes :=
    s!"Replacings: {report.inserted.length} inserted, {report.deleted.length} deleted; " ++
      s!"troubles: +{report.troubles.added} -{report.troubles.removed}"
  let problems := report.problems.toList.map fun (absence, problems) =>
    s!"  absence {absence}: " ++ ", ".intercalate (problems.toList.map Problem.key)
  String.join (([heading, writes] ++ problems ++ report.balances.map balanceLine).map (· ++ "\n"))

/-- What a finished scan prints. -/
def printed (arguments : Arguments) (report : Report) : String :=
  if arguments.json then (write report).pretty ++ "\n" else plainText report

/-- The files a finished scan writes, in order. -/
def outputs (arguments : Arguments) (report : Report) (document : LedgerDocument) :
    List Output :=
  let problems := arguments.troublesCsv.map fun path =>
    Output.mk path report.problemTable (.createTable path) .writeProblemTable
  let balances := arguments.periodsCsv.map fun path =>
    Output.mk path report.balanceTable (.createTable path) .writeBalanceTable
  let ledger := arguments.output.map fun path =>
    Output.mk path (write document).pretty (.writeLedger path) (.writeLedger path)
  [problems, balances, ledger].filterMap id

/-- Reads a file as a value. There is a failure for a file that cannot be read, and one for a text that
does not hold such a value. -/
def readAs {α : Type} [Readable α] (read : String → Option String) (path : String)
    (unread malformed : String → Failure) : Except Failure α :=
  match read path with
  | none => throw (unread path)
  | some text =>
    match (Json.parse? text).bind read? with
    | none => throw (malformed path)
    | some value => return value

/-- Scans as the arguments say, reading files through `read`. -/
def runScan (raw : RawSettings) (read : String → Option String) (arguments : Arguments) :
    Except Failure Run := do
  let settings ← raw.toSettings.mapError fun _ => Failure.settings
  let rules ← readAs read arguments.rules .readRules .parseRules
  let document : LedgerDocument ← readAs read arguments.ledger .readLedger .parseLedger
  if (document.persons.get? arguments.person).isNone then
    throw (.unknownPerson arguments.person)
  let context : ScanContext := ⟨rules, .perPerson document.workingMinutes, settings⟩
  match Ledger.load? document with
  | none => return .exhausted
  | some ledger =>
    match context.scanFrom document.persons arguments.person arguments.start ledger with
    | .exhausted => return .exhausted
    | .error _ _ => throw (.scan arguments.person)
    | .ok report after =>
      return .done (printed arguments report)
        (outputs arguments report (after.toDocument document))

/-- A run under an environment. The environment is read first, then the arguments. -/
def run (environment : Environment) (read : String → Option String) (arguments : List String) :
    Run :=
  match environment.rawSettings with
  | .error _ => .failed .environment
  | .ok raw =>
    match Arguments.parse arguments with
    | .error .help => .help
    | .error .usage => .usage
    | .ok arguments =>
      match runScan raw read arguments with
      | .error failure => .failed failure
      | .ok run => run

end Entitlement.CommandLine
