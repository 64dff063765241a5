import Entitlement.Absence.Record

/-!
A charge: one record evaluated against the limit of a period. The comparison with the limit is made
in exact integers, so no amount is too large for it.
-/

namespace Entitlement

structure Charge where
  absence : Absence
  unit : AmountUnit
  limit : Amount
  takenBefore : Amount
  amount : Amount
  beforeInitialization : Bool
deriving DecidableEq

namespace Charge

/-- An amount fits if the limit is negative, or covers it together with what was taken before. -/
def fits (limit takenBefore amount : Amount) : Bool :=
  decide (limit < 0) || decide (0 ≤ limit.val - takenBefore.val - amount.val)

/-- Days before the initialization are part of its balance and always admitted. -/
def isAdmitted (charge : Charge) : Bool :=
  charge.beforeInitialization || fits charge.limit charge.takenBefore charge.amount

end Charge

end Entitlement
