import Entitlement.Absence.Weight
import Entitlement.Calendar.DateRange
import Entitlement.Period.Day
import Entitlement.Person
import Entitlement.Problem.Findings

/-!
A period: one contiguous application of a category's rules. Records are charged to it, complete it,
or replace completed amounts in it. Records that do not fit are charged and flagged, never dropped.
-/

namespace Entitlement

structure Period where
  category : Category
  range : DateRange
  /-- A negative limit is none. -/
  limit : Amount
  /-- What has been charged so far, the initialization's balance included. -/
  taken : Amount
  initialization : Option Initialization
  days : OrderedMap Date PeriodDay
  compromisedFrom : Option Date
  findings : Findings
deriving DecidableEq

namespace Period

/-- An empty period. A limit in the initialization replaces the given one. -/
def start (category : Category) (range : DateRange) (limit : Amount)
    (initialization : Option Initialization) : Period where
  category := category
  range := range
  limit := (initialization.bind (·.limit)).getD limit
  taken := initialization.elim 0 (·.taken)
  initialization := initialization
  days := ∅
  compromisedFrom := none
  findings := ∅

def name (period : Period) : CategoryName :=
  period.category.name

def unit? (period : Period) : Option AmountUnit :=
  period.category.takable.map (·.unit)

/-- The unit of charges; a period without a limit of its own counts days. -/
def unit (period : Period) : AmountUnit :=
  period.unit?.getD .units

def takenCodes (period : Period) : List Code :=
  period.category.takable.elim [] fun t => t.codes.toList

def covers (period : Period) (date : Date) : Bool :=
  period.range.contains date

/-- A period takes the records it covers whose code its limit counts. -/
def takes (period : Period) (record : Absence) : Bool :=
  period.covers record.date && period.category.takes record.code

def completes (period : Period) (record : Absence) : Bool :=
  period.covers record.date && period.category.completes record.code

def replaces (period : Period) (record : Absence) : Bool :=
  period.covers record.date && period.category.replaces record.code

def isUnlimited (period : Period) : Bool :=
  decide (period.limit < 0)

/-- The limit less what was taken, which counts only under a limit. -/
def residual (period : Period) : Amount :=
  period.limit - period.taken

/-- What is left of a limited period. -/
def remaining (period : Period) : Option Amount :=
  if period.isUnlimited then none else some period.residual

/-- Sets a limit that becomes known late. A limit in the initialization still wins. -/
def seed (period : Period) (limit : Amount) : Period :=
  if (period.initialization.bind (·.limit)).isSome then period else { period with limit := limit }

def isPrior (period : Period) (date : Date) : Bool :=
  period.initialization.any fun i => decide (date < i.date)

def day? (period : Period) (date : Date) : Option PeriodDay :=
  period.days.get? date

/-- The day at a date, blank if nothing has happened on it. -/
def dayAt (period : Period) (date : Date) : PeriodDay :=
  (period.day? date).getD (.blank date (period.isPrior date))

def onDay (period : Period) (date : Date) (change : PeriodDay → PeriodDay) : Period :=
  { period with days := period.days.insert date (change (period.dayAt date)) }

def assess (period : Period) (record : Absence) (amount : Amount) : Charge where
  absence := record
  unit := period.unit
  limit := period.limit
  takenBefore := period.taken
  amount := amount
  beforeInitialization := period.isPrior record.date

def flag (period : Period) (charge : Charge) : Period :=
  if charge.isAdmitted then period
  else { period with
    findings := period.findings.addProblem charge.absence.id .limitExceeded }

/-- Charges a record to the period and flags it if it does not fit. -/
def charge (period : Period) (charge : Charge) : Period :=
  let period := period.flag charge
  let period := if charge.beforeInitialization then period
    else { period with taken := period.taken + charge.amount }
  period.onDay charge.absence.date fun day => { day with charges := day.charges ++ [charge] }

def addCompletion (period : Period) (record : Absence) (amount : Amount) : Period :=
  period.onDay record.date fun day => { day with completions := day.completions ++ [(record, amount)] }

def addReplacing (period : Period) (record : Absence) : Period :=
  period.onDay record.date fun day => { day with replacings := day.replacings ++ [record] }

/-- Marks the period compromised from the date of an error on, or from an earlier one. -/
def compromise (period : Period) (error : CriticalError) : Period :=
  { period with
    compromisedFrom := some (period.compromisedFrom.elim error.date (min · error.date))
    findings := period.findings.addCritical error }

def isCompromisedOn (period : Period) (date : Date) : Bool :=
  period.compromisedFrom.any fun start => decide (start ≤ date)

/-- The completion residual the period begins with. -/
def initialResidual (period : Period) : Amount :=
  period.initialization.elim 0 (·.completion)

/-- Adds a day's completions to the residual and takes off the largest replacing that fits. Days
before the initialization are passed by, compromised ones require nothing. -/
def settleDay (period : Period) (completion : Completion) (residual : Amount) (date : Date)
    (day : PeriodDay) : Amount × PeriodDay :=
  if day.beforeInitialization then (residual, day)
  else if period.isCompromisedOn date then
    (residual, { day with compromised := true, required := none })
  else
    let residual := residual + day.completed
    let required := completion.largestFitting residual
    let residual := required.elim residual fun r => residual - r.amount
    (residual, { day with required := required, residualAfter := residual })

/-- Decides which replacing code each day requires, walking the days in order. -/
def settle (period : Period) : Period :=
  match period.category.completion with
  | none => period
  | some completion =>
    { period with
      days := (period.days.scan (period.settleDay completion) period.initialResidual).2 }

/-- The completion residual after the last day that counts. -/
def finalResidual (period : Period) : Option Amount :=
  period.category.completion.map fun _ =>
    ((period.days.values.filter fun d => !d.beforeInitialization && !d.compromised).getLast?).elim
      period.initialResidual (·.residualAfter)

end Period

/-- The balance of a period as reports show it. -/
structure Balance where
  category : CategoryName
  first : Date
  last : Date
  unit : Option AmountUnit
  limit : Amount
  taken : Amount
  remaining : Option Amount
  completionResidual : Option Amount
  compromised : Bool
deriving DecidableEq

def Period.balance (period : Period) : Balance where
  category := period.name
  first := period.range.first
  last := period.range.last
  unit := period.unit?
  limit := period.limit
  taken := period.taken
  remaining := period.remaining
  completionResidual := period.finalResidual
  compromised := period.compromisedFrom.isSome

end Entitlement
