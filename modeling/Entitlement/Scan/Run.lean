import Entitlement.Scan.Report
import Entitlement.Scan.Standalone

/-!
Scanning a person: find the problems that need no chain, visit every pending pair of a record and a
category, reconcile the annotations with all that was found, and report. A scan may run in a
transaction, and one that loads its records from the ledger always does.
-/

namespace Entitlement

namespace ScanContext

/-- Records that repairs have deleted, or found gone. -/
def removedBy (visits : List Visit) : OrderedSet AbsenceId :=
  .ofList (visits.flatMap fun visit => visit.effect.deleted ++ visit.effect.skipped)

/-- Scans, repairs and annotates the records of a scope. What was written before a failure stays. -/
def scan (context : ScanContext) (scope : ScanScope) : LedgerAction ScanFailure Report :=
  fun ledger =>
    let agenda := Agenda.ofRecords context.rules context.settings scope.records
    let standalone := scope.standaloneFindings ledger agenda.records
    match context.visitAll scope agenda ledger with
    | .exhausted => .exhausted
    | .error error ledger => .error error ledger
    | .ok visits ledger =>
      let findings := visits.foldl (fun findings visit => visit.report findings) standalone
      match Ledger.reconcile (removedBy visits) findings (agenda.records.map (·.id)) ledger with
      | .exhausted => .exhausted
      | .error error ledger => .error (.store error) ledger
      | .ok troubles ledger => .ok (.ofVisits scope agenda visits findings troubles) ledger

/-- A scan that leaves the ledger as it was if it fails. -/
def scanAtomically (context : ScanContext) (scope : ScanScope) : LedgerAction ScanFailure Report :=
  Ledger.atomically (context.scan scope)

/-- Scans all records of a person from a date on, in a transaction. It follows a change of a contract,
from its begin on, or of the working time of a day, from that day on. -/
def scanFrom (context : ScanContext) (directory : Directory) (person : PersonId) (start : Date) :
    LedgerAction ScanFailure Report :=
  Ledger.atomically fun ledger =>
    context.scan (.ofLedger ledger directory person start) ledger

end ScanContext

end Entitlement
