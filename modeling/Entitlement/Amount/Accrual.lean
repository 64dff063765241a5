import Entitlement.Amount.Basic

/-!
Accrual: the part of a limit that goes with the part of a period that is covered, rounded down to
whole days or whole minutes.
-/

namespace Entitlement

open AmountUnit

/-- The grain in which limits accrue: a full day, or a minute. -/
def AmountUnit.grain : AmountUnit → Int
  | units => 100
  | minutes => 1

/-- The greatest multiple of the unit's grain not above `limit * covered / full`. -/
def accruedShare (limit : Int) (unit : AmountUnit) (covered full : Int) : Int :=
  limit * covered / (full * unit.grain) * unit.grain

/-- What a limit grants for `covered` of `full` days: all of it under full cover, else the accrued
share. There is no answer when the product of limit and days needs more than 96 bits; a share that
is no amount counts as nothing. -/
def accrue? (limit : Amount) (unit : AmountUnit) (covered full : Int) : Option Amount :=
  if full ≤ 0 ∨ full ≤ covered then some limit
  else if Nat.pow 2 96 ≤ (limit.val * covered).natAbs then none
  else some ((Amount.ofInt? (accruedShare limit.val unit covered full)).getD 0)

end Entitlement
