import Entitlement.Chain.Build
import Entitlement.Replacing.Effect
import Entitlement.Scan.Agenda

/-!
The visits of a scan: the chain of one record and one category is built from the ledger and repaired
on the spot. All records that took part in the chain count as checked against its categories. A record
outside every contract is never visited.
-/

namespace Entitlement

/-- What every scan works with. -/
structure ScanContext where
  rules : RuleTree
  working : WorkingTime
  settings : ScanSettings

/-- The records of one person that are to be scanned. Those of other persons and those before
`start` are passed by. -/
structure ScanScope where
  person : PersonId
  start : Date
  absences : List Absence
  profile : Profile

namespace ScanScope

/-- All records of a person from a date on. -/
def ofLedger (ledger : Ledger) (directory : Directory) (person : PersonId) (start : Date) :
    ScanScope :=
  ⟨person, start, ledger.absencesIn person start .maximum, directory.profile person⟩

def records (scope : ScanScope) : List Absence :=
  scope.absences.filter fun a => a.person = scope.person && scope.start ≤ a.date

def isCovered (scope : ScanScope) (record : Absence) : Bool :=
  scope.profile.contracts.any fun contract => contract.contains record.date

end ScanScope

/-- How a visit ended: without a child, without any period, at a critical error, or with a repaired
chain. -/
inductive VisitResult where
  | childMissing
  | noPeriods
  | aborted (error : CriticalError)
  | repaired (chain : Chain) (effect : RepairEffect)

structure Visit where
  record : Absence
  category : CategoryName
  result : VisitResult

namespace Visit

/-- The pairs that need no visit of their own any more. -/
def settled (visit : Visit) : List (AbsenceId × CategoryName) :=
  match visit.result with
  | .repaired chain _ =>
    chain.participants.toList.flatMap fun absence => chain.categories.map fun c => (absence, c)
  | _ => []

/-- What a visit adds to the findings of the scan. -/
def report (visit : Visit) (findings : Findings) : Findings :=
  match visit.result with
  | .childMissing => findings.addProblem visit.record.id .noChildExist
  | .noPeriods => findings
  | .aborted error => findings.addCritical error
  | .repaired chain _ => findings.merge chain.findings

def chain? (visit : Visit) : Option Chain :=
  match visit.result with
  | .repaired chain _ => some chain
  | _ => none

def effect (visit : Visit) : RepairEffect :=
  match visit.result with
  | .repaired _ effect => effect
  | _ => .empty

end Visit

namespace ScanContext

/-- The chain around a record, charged with the records of the ledger that it needs. -/
def chainAround (context : ScanContext) (scope : ScanScope) (record : Absence)
    (category : CategoryName) (ledger : Ledger) : Except CriticalError Chain := do
  let pivot : Pivot := ⟨scope.person, category, record.date, scope.profile⟩
  let chain ← Chain.layOut context.rules pivot
  match chain.reach with
  | none => return chain
  | some range =>
    Chain.fill context.rules context.working pivot chain
      (ledger.absencesIn scope.person range.first range.last)

/-- Builds the chain around a record and repairs it. -/
def visit (context : ScanContext) (scope : ScanScope) (record : Absence) (category : CategoryName) :
    LedgerAction ScanFailure Visit := fun ledger =>
  match context.chainAround scope record category ledger with
  | .error error => .ok ⟨record, category, .aborted error⟩ ledger
  | .ok chain =>
    if chain.childIsMissing then .ok ⟨record, category, .childMissing⟩ ledger
    else if chain.periods.isEmpty then .ok ⟨record, category, .noPeriods⟩ ledger
    else
      match chain.repair context.rules with
      | .error error => .error error ledger
      | .ok repair =>
        match Ledger.carryOut repair ledger with
        | .exhausted => .exhausted
        | .error error ledger => .error error ledger
        | .ok effect ledger => .ok ⟨record, category, .repaired chain effect⟩ ledger

/-- Visits the pending pairs of an agenda until none is left. -/
def visitAll (context : ScanContext) (scope : ScanScope) (agenda : Agenda) :
    LedgerAction ScanFailure (List Visit) :=
  match _h : agenda.nextPair with
  | (none, _) => pure []
  | (some (record, category), next) =>
    if scope.isCovered record then do
      let visit ← context.visit scope record category
      let rest ← context.visitAll scope
        ((next.strike record.id category).strikePairs visit.settled)
      return visit :: rest
    else
      context.visitAll scope (next.strikeAll record.id)
termination_by agenda.pendingCount
decreasing_by
  · exact Nat.lt_of_le_of_lt (Agenda.strikePairs_count_le _ _)
      (Agenda.strike_count_lt ‹_›)
  · exact Agenda.strikeAll_count_lt ‹_›

end ScanContext

end Entitlement
