import Entitlement.Scan.Reconcile
import Entitlement.Scan.Visit

/-!
Scan reports: the problems and critical errors that a scan has found, what it has written to the
ledger, and the last balance of every period it has built.
-/

namespace Entitlement

structure Report where
  person : PersonId
  start : Date
  scannedAbsences : Nat
  chainsBuilt : Nat
  /-- The problems of the scanned records. -/
  problems : OrderedMap AbsenceId (OrderedSet Problem)
  critical : List CriticalError
  inserted : List Absence
  deleted : List AbsenceId
  skipped : List AbsenceId
  troubles : TroubleCount
  /-- The last balance of each period, by category and begin. -/
  balances : List Balance
deriving DecidableEq

namespace Report

def problemsOf (report : Report) (absence : AbsenceId) : OrderedSet Problem :=
  (report.problems.get? absence).getD ∅

def lists (report : Report) (absence : AbsenceId) (problem : Problem) : Bool :=
  (report.problemsOf absence).contains problem

/-- The scan has written nothing. -/
def changesNothing (report : Report) : Bool :=
  report.inserted.isEmpty && report.deleted.isEmpty && report.troubles.added = 0 &&
    report.troubles.removed = 0

/-- The balances of all chains: of two for one category and begin the later stays. -/
def lastBalances (chains : List Chain) : OrderedMap (CategoryName × Date) Balance :=
  .ofList ((chains.flatMap (·.balances)).map fun b => ((b.category, b.first), b))

/-- The report of a scan from its agenda, its visits, all its findings and its annotations. -/
def ofVisits (scope : ScanScope) (agenda : Agenda) (visits : List Visit)
    (findings : Findings) (troubles : TroubleCount) : Report where
  person := scope.person
  start := scope.start
  scannedAbsences := agenda.size
  chainsBuilt := (visits.filterMap (·.chain?)).length
  problems := findings.problems.filter fun absence _ => agenda.contains absence
  critical := findings.critical
  inserted := visits.flatMap (·.effect.inserted)
  deleted := visits.flatMap (·.effect.deleted)
  skipped := visits.flatMap (·.effect.skipped)
  troubles := troubles
  balances := (lastBalances (visits.filterMap (·.chain?))).values

end Report

end Entitlement
