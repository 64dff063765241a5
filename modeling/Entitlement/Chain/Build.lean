import Entitlement.Chain.CarryOver

/-!
Building a chain: its periods are laid out, the carry-overs get their limits, and the records are
charged in order of date and identifier. The same inputs always give the same chain.
-/

namespace Entitlement

namespace Chain

/-- Charges every relevant record to a chain that was laid out for the pivot. -/
def fill (rules : RuleTree) (working : WorkingTime) (pivot : Pivot) (chain : Chain)
    (records : List Absence) : Except CriticalError Chain :=
  match chain.range with
  | none => return chain
  | some range => do
    let periods := chain.periods.map (seedPeriod rules working pivot records)
    let chain ← (chain.relevant range records).foldlM (enter working)
      { chain with periods := periods }
    return chain.settle

/-- Lays the chain of a pivot out and charges the records to it. -/
def build (rules : RuleTree) (working : WorkingTime) (pivot : Pivot)
    (records : List Absence) : Except CriticalError Chain := do
  fill rules working pivot (← layOut rules pivot) records

end Chain

end Entitlement
