import Entitlement.Calendar.DateText
import Entitlement.Rule.Category

/-!
What can be wrong with a record, with a chain of rules, or with an operation on the ledger, and how
each is worded.
-/

namespace Entitlement

/-- A problem of one record. It is annotated and never stops a scan. -/
inductive Problem where
  | limitExceeded
  | allDayAlreadyExists
  | duplicateCode
  | outOfContract
  | noChildExist
deriving DecidableEq, Repr

namespace Problem

def rank : Problem → Nat
  | limitExceeded => 0
  | allDayAlreadyExists => 1
  | duplicateCode => 2
  | outOfContract => 3
  | noChildExist => 4

instance : Ordered Problem := .byKey rank (by
  intro a b
  cases a <;> cases b <;> simp [rank])

/-- The stable key of reports. -/
def key : Problem → String
  | limitExceeded => "LIMIT_EXCEEDED"
  | allDayAlreadyExists => "ALL_DAY_ALREADY_EXISTS"
  | duplicateCode => "DUPLICATE_CODE"
  | outOfContract => "OUT_OF_CONTRACT"
  | noChildExist => "NO_CHILD_EXIST"

def message : Problem → String
  | limitExceeded => "Absence exceeds the takable limit of its period"
  | allDayAlreadyExists => "An all-day absence conflicts with another absence on the same date"
  | duplicateCode => "The same code is recorded more than once on the same date"
  | outOfContract => "Absence date is not covered by any contract"
  | noChildExist => "No qualifying child exists for this category"

end Problem

/-- What makes a rule graph malformed. -/
inductive RuleDefect where
  | unknownCategory (name : CategoryName)
  | unknownSuccessor (name next : CategoryName)
  | appearsTwice (name : CategoryName)
  | missesContract (name : CategoryName)
  | noBehaviour (name : CategoryName)
  | carryMonth (name : CategoryName) (month : Nat)
  | carryUnknown (name source : CategoryName)
  | carryMismatch (name source : CategoryName)
  | overflowsCalendar (name : CategoryName)
  | emptyChildPeriod (name : CategoryName)
  /-- A defect known by its wording only. -/
  | worded (detail : String)
deriving DecidableEq

def RuleDefect.message : RuleDefect → String
  | unknownCategory name => s!"unknown category '{name}'"
  | unknownSuccessor name next => s!"'{name}' chains to unknown category '{next}'"
  | appearsTwice name => s!"category '{name}' appears twice in its chain"
  | missesContract name => s!"period of '{name}' does not meet the contract"
  | noBehaviour name => s!"'{name}' has neither takable nor completion rules"
  | carryMonth name month => s!"'{name}' is usable until month {month}"
  | carryUnknown name source => s!"'{name}' carries over unknown category '{source}'"
  | carryMismatch name source =>
    s!"'{name}' cannot carry over '{source}': both need limits in the same unit"
  | overflowsCalendar name => s!"period of '{name}' overflows the calendar"
  | emptyChildPeriod name => s!"child period of '{name}' is empty"
  | worded detail => detail

/-- An inconsistency of the rules or of the amounts. -/
inductive Fault where
  | unsupportedPattern (pattern : Pattern)
  | malformedRules (defect : RuleDefect)
  | incalculableAmount (code : Code) (date : Date)
  | conflictingAmounts (first second : Code) (amount : Amount)
  | twoPeriods (date : Date)
deriving DecidableEq

def Fault.message : Fault → String
  | unsupportedPattern pattern =>
    "Category pattern " ++ pattern.title ++ " is not supported by the engine"
  | malformedRules defect => "Malformed rule graph: " ++ defect.message
  | incalculableAmount code date =>
    "Amount of code '" ++ code ++ "' on " ++ toString date ++ " cannot be computed"
  | conflictingAmounts first second amount =>
    "Replacing codes '" ++ first ++ "' and '" ++ second ++ "' share the same amount " ++
      toString amount
  | twoPeriods date =>
    "Date " ++ toString date ++ " falls in more than one period where exactly one is expected"

/-- A fault met while evaluating a category around a date. -/
structure CriticalError where
  category : CategoryName
  date : Date
  absence : Option AbsenceId
  fault : Fault
deriving DecidableEq

def CriticalError.message (error : CriticalError) : String :=
  "Critical error in category '" ++ error.category ++ "' on " ++ toString error.date ++ ": " ++
    error.fault.message

/-- What the ledger names in its refusals. -/
inductive Entity where
  | absence
  | attendanceDay
deriving DecidableEq, Repr

def Entity.label : Entity → String
  | absence => "absence"
  | attendanceDay => "attendance day"

/-- A refusal of the ledger. -/
inductive LedgerRefusal where
  | notFound (entity : Entity) (id : Nat)
  | personMismatch (day : DayId) (expected actual : PersonId)
deriving DecidableEq

def LedgerRefusal.message : LedgerRefusal → String
  | notFound entity id => entity.label ++ " with id " ++ toString id ++ " not found"
  | personMismatch day expected actual =>
    s!"Attendance day {day} belongs to person {actual}, not {expected}"

/-- Why a replacing record cannot be written. -/
inductive Precondition where
  | codeNotInCatalog (code : Code)
  | noUncountedKind (code : Code)
  | severalUncountedKinds (code : Code) (count : Nat)
  /-- A condition known by its wording only. -/
  | worded (text : String)
deriving DecidableEq

def Precondition.message : Precondition → String
  | codeNotInCatalog code => s!"replacing code '{code}' is not in the code catalog"
  | noUncountedKind code => s!"replacing code '{code}' allows no no-amount justification"
  | severalUncountedKinds code count =>
    s!"replacing code '{code}' allows {count} no-amount justifications, expected one"
  | worded text => text

/-- A failure that stops a repair or a scan. -/
inductive ScanFailure where
  | store (error : LedgerRefusal)
  | precondition (condition : Precondition)
deriving DecidableEq

def ScanFailure.message : ScanFailure → String
  | store error => "Ledger store error: " ++ error.message
  | precondition condition => "Contract violation: " ++ condition.message

end Entitlement
