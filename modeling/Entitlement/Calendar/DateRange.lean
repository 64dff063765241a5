import Entitlement.Calendar.Date

/-!
Ranges of dates, both ends included. A range may be written with its ends the wrong way round; it
then holds no date.
-/

namespace Entitlement

open Calendar

/-- The dates from `first` to `last`. -/
structure DateRange where
  first : Date
  last : Date
deriving DecidableEq

namespace DateRange

instance : Membership Date DateRange := ⟨fun range date => range.first ≤ date ∧ date ≤ range.last⟩

theorem mem_def {date : Date} {range : DateRange} :
    date ∈ range ↔ range.first ≤ date ∧ date ≤ range.last := Iff.rfl

instance (date : Date) (range : DateRange) : Decidable (date ∈ range) :=
  inferInstanceAs (Decidable (_ ∧ _))

def contains (range : DateRange) (date : Date) : Bool :=
  decide (date ∈ range)

/-- What two ranges share, `none` when they are disjoint. -/
def intersect (a b : DateRange) : Option DateRange :=
  let first := max a.first b.first
  let last := min a.last b.last
  if first ≤ last then some ⟨first, last⟩ else none

/-- The least range around two ranges. -/
def span (a b : DateRange) : DateRange :=
  ⟨min a.first b.first, max a.last b.last⟩

/-- How many days the range has, both ends counted. -/
def days (range : DateRange) : Int :=
  range.last.dayNumber - range.first.dayNumber + 1

/-- The year a date lies in. -/
def yearAround (date : Date) : DateRange :=
  ⟨date.startOfYear, date.endOfYear⟩

/-- The first and last day of a year, if the calendar has it. -/
def year? (year : Int) : Option DateRange :=
  (Date.ofParts? year 1 1).map yearAround

/-- The month a date lies in. The end of a month is found from the month after it, so the last
month of the calendar has no range. -/
def monthAround? (date : Date) : Option DateRange := do
  let first ← Date.ofParts? date.year date.month 1
  let next ←
    if date.month = 12 then Date.ofParts? (date.year + 1) 1 1
    else Date.ofParts? date.year (date.month + 1) 1
  let last ← next.pred?
  return ⟨first, last⟩

/-- From January of a year to the end of one of its months. -/
def throughMonth? (year : Int) (month : Nat) : Option DateRange := do
  let first ← Date.ofParts? year 1 1
  let ending ← monthAround? (← Date.ofParts? year month 1)
  return ⟨first, ending.last⟩

end DateRange

end Entitlement
