import Entitlement.Chain.Basic
import Entitlement.Rule.Tree

/-!
The repair of a chain: which replacing records to remove and which to add so that the automatic
periods hold what they require. Compromised days are left alone.
-/

namespace Entitlement

/-- A replacing record that is to go. -/
structure Removal where
  category : CategoryName
  absence : AbsenceId
  code : Code
  date : Date
deriving DecidableEq

/-- A replacing record that is to be written. -/
structure Addition where
  category : CategoryName
  date : Date
  code : Code
  kind : Justification
deriving DecidableEq

structure Repair where
  person : PersonId
  removals : List Removal
  additions : List Addition
deriving DecidableEq

def Repair.isEmpty (repair : Repair) : Bool :=
  repair.removals.isEmpty && repair.additions.isEmpty

namespace RuleTree

/-- The one justification without an amount that a replacing code may carry. -/
def justificationFor (rules : RuleTree) (code : Code) : Except Precondition Justification :=
  match rules.code? code with
  | none => throw (.codeNotInCatalog code)
  | some entry =>
    match entry.uncountedKinds with
    | [kind] => return kind
    | [] => throw (.noUncountedKind code)
    | kinds => throw (.severalUncountedKinds code kinds.length)

end RuleTree

namespace Chain

/-- The days a repair may touch, each with its period. -/
def repairDays (chain : Chain) : List (Period × PeriodDay) :=
  (chain.periods.filter fun period => period.category.automatic).flatMap fun period =>
    (period.days.values.filter fun day => !day.compromised).map fun day => (period, day)

/-- A wrong replacing record, once even if several periods or days hold it. -/
def addRemoval (name : CategoryName) (planned : List Removal) (record : Absence) : List Removal :=
  if planned.any fun removal => removal.absence = record.id then planned
  else planned ++ [⟨name, record.id, record.code, record.date⟩]

def removals (chain : Chain) : List Removal :=
  chain.repairDays.foldl
    (fun planned (period, day) => day.wrongReplacings.foldl (addRemoval period.name) planned) []

/-- The replacing record a day lacks. -/
def addition? (rules : RuleTree) (period : Period) (day : PeriodDay) :
    Except Precondition (Option Addition) :=
  match day.required with
  | none => return none
  | some required =>
    if day.lacksReplacing then do
      let kind ← rules.justificationFor required.code
      return some ⟨period.name, day.date, required.code, kind⟩
    else return none

def additions (rules : RuleTree) (days : List (Period × PeriodDay)) :
    Except Precondition (List Addition) :=
  match days with
  | [] => return []
  | (period, day) :: rest => do
    let planned ← addition? rules period day
    return planned.toList ++ (← additions rules rest)

/-- The repair of every automatic period of a chain. It fails if a code it must write allows no
justification without an amount, or several. -/
def repair (rules : RuleTree) (chain : Chain) : Except ScanFailure Repair :=
  match additions rules chain.repairDays with
  | .error condition => throw (.precondition condition)
  | .ok planned => return ⟨chain.person, chain.removals, planned⟩

end Chain

end Entitlement
