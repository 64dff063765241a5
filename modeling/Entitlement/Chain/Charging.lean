import Entitlement.Chain.Basic

/-!
Charging records to the periods of a chain. A record is offered to the periods that take it, one
after the other: the first that admits it is charged, and if none does, the last. A period in which
the amount cannot be computed is compromised instead and the offer ends there.
-/

namespace Entitlement

namespace Period

/-- The error of a record whose amount cannot be computed in a period. -/
def amountError (period : Period) (record : Absence) : CriticalError :=
  ⟨period.name, record.date, some record.id, .incalculableAmount record.code record.date⟩

/-- Adds what a record completes, or compromises the period if that cannot be computed. -/
def completeWith (period : Period) (working : Option Amount) (record : Absence) : Period :=
  match period.category.completion with
  | none => period
  | some completion =>
    match record.weight? completion.unit working with
    | some amount => period.addCompletion record amount
    | none => period.compromise (period.amountError record)

end Period

namespace Chain

/-- Offers a record to periods in turn, and tells whether one of them has dealt with it. -/
def offer (working : Option Amount) (record : Absence) : List Period → List Period × Bool
  | [] => ([], false)
  | period :: rest =>
    if period.takes record then
      match record.weight? period.unit working with
      | none => (period.compromise (period.amountError record) :: rest, true)
      | some amount =>
        let charge := period.assess record amount
        if charge.isAdmitted then (period.charge charge :: rest, true)
        else
          match offer working record rest with
          | (rest, true) => (period :: rest, true)
          | (rest, false) => (period.charge charge :: rest, true)
    else
      let (rest, taken) := offer working record rest
      (period :: rest, taken)

/-- Adds a record to the periods it completes and to those it replaces in. -/
def attach (working : Option Amount) (record : Absence) (period : Period) : Period :=
  let completed := if period.completes record then period.completeWith working record else period
  if period.replaces record then completed.addReplacing record else completed

/-- Completions and replacings of a record, each of which at most one period may ask for. -/
def attachAll (category : CategoryName) (working : Option Amount) (record : Absence)
    (periods : List Period) : Except CriticalError (List Period × Bool) :=
  let completing := periods.countP fun period => period.completes record
  let replacing := periods.countP fun period => period.replaces record
  if 1 < completing ∨ 1 < replacing then
    throw ⟨category, record.date, some record.id, .twoPeriods record.date⟩
  else
    return (periods.map (attach working record), 0 < completing || 0 < replacing)

/-- Brings one record into the chain. -/
def enter (working : WorkingTime) (chain : Chain) (record : Absence) :
    Except CriticalError Chain := do
  let minutes := working chain.person record.date
  let (periods, taken) := offer minutes record chain.periods
  let (periods, attached) ← attachAll chain.category minutes record periods
  let participants :=
    if taken || attached then chain.participants.insert record.id else chain.participants
  return { chain with periods := periods, participants := participants }

/-- Settles the days of every period and gathers what the periods have found. -/
def settle (chain : Chain) : Chain :=
  let periods := chain.periods.map (·.settle)
  { chain with
    periods := periods
    findings := periods.foldl (fun findings period => findings.merge period.findings)
      chain.findings }

/-- The records a chain is concerned with, in order. -/
def relevant (chain : Chain) (range : DateRange) (records : List Absence) : List Absence :=
  let codes := chain.codes
  Absence.inOrder (records.filter fun a =>
    a.person = chain.person && range.contains a.date && codes.contains a.code)

end Chain

end Entitlement
