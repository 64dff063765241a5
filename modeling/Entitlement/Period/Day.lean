import Entitlement.Period.Charge
import Entitlement.Rule.Category

/-!
One day of a period: the charges, completions and replacing records that fall on it, and the
replacing code it requires.
-/

namespace Entitlement

structure PeriodDay where
  date : Date
  charges : List Charge
  completions : List (Absence × Amount)
  replacings : List Absence
  /-- The replacing code required on this day. -/
  required : Option ReplacingCode
  /-- The completion residual left after this day. -/
  residualAfter : Amount
  compromised : Bool
  beforeInitialization : Bool
deriving DecidableEq

namespace PeriodDay

/-- A day on which nothing has happened. -/
def blank (date : Date) (beforeInitialization : Bool) : PeriodDay :=
  ⟨date, [], [], [], none, 0, false, beforeInitialization⟩

def completed (day : PeriodDay) : Amount :=
  .sum (day.completions.map (·.2))

def charged (day : PeriodDay) : Amount :=
  .sum ((day.charges.filter fun c => !c.beforeInitialization).map (·.amount))

def isRequired (day : PeriodDay) (code : Code) : Bool :=
  day.required.any fun r => r.code = code

/-- Replacing records with another code than the required one. Days before the initialization are
not judged. -/
def wrongReplacings (day : PeriodDay) : List Absence :=
  if day.beforeInitialization then []
  else day.replacings.filter fun r => !day.isRequired r.code

/-- Whether a code is required, and no record of it exists on a day that is judged. -/
def lacksReplacing (day : PeriodDay) : Bool :=
  !day.compromised && !day.beforeInitialization && day.required.any fun required =>
    !day.replacings.any fun r => r.code = required.code

end PeriodDay

end Entitlement
