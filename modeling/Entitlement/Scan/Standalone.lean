import Entitlement.Scan.Visit

/-!
Problems that a record has whatever its categories: a date outside every contract, its code twice on
one date, or a conflict with an all-day record on its date. They are found before any repair.
-/

namespace Entitlement

namespace Absence

/-- Two records conflict when both justify something and one of them the whole day. -/
def conflictsWith (a b : Absence) : Bool :=
  !a.kind.isUncounted && !b.kind.isUncounted && (a.kind.fillsDay || b.kind.fillsDay)

/-- The problems that other records on the date of a record give it. -/
def sameDayProblems (record : Absence) (others : List Absence) : List Problem :=
  (if others.any fun other => other.code = record.code then [.duplicateCode] else []) ++
    if others.any record.conflictsWith then [.allDayAlreadyExists] else []

end Absence

namespace ScanScope

/-- The problems of a record that need no chain. -/
def standaloneProblems (scope : ScanScope) (ledger : Ledger) (record : Absence) : List Problem :=
  let sameDay := ledger.absencesIn scope.person record.date record.date
  (if scope.isCovered record then [] else [.outOfContract]) ++
    record.sameDayProblems (sameDay.filter fun other => other.id ≠ record.id)

/-- The problems of all records that need no chain. -/
def standaloneFindings (scope : ScanScope) (ledger : Ledger) (records : List Absence) :
    Findings :=
  records.foldl (fun findings record =>
    (scope.standaloneProblems ledger record).foldl
      (fun findings problem => findings.addProblem record.id problem) findings) ∅

end ScanScope

end Entitlement
