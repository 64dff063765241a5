import Entitlement.Absence.Record

/-!
What a record weighs in a unit. A full day is a hundred hundredths or the day's working time, half a
day is half of that, and minutes turn into hundredths of the working time, cut off toward zero.
-/

namespace Entitlement

/-- The working minutes of a person on a date, where they are known. -/
abbrev WorkingTime := PersonId → Date → Option Amount

namespace WorkingTime

def unknown : WorkingTime := fun _ _ => none

def constant (minutes : Amount) : WorkingTime := fun _ _ => some minutes

end WorkingTime

/-- The amount of a record in a unit, given the working time of its day. It is unknown when it
needs a working time that is not known to be positive, or minutes the record does not carry, or when
it is too large for an amount. -/
def Absence.weight? (record : Absence) (unit : AmountUnit) (working : Option Amount) :
    Option Amount :=
  let working := working.filter (0 < ·)
  match record.kind, unit with
  | .nothing, _ => some 0
  | .allDay, .units | .assignAllDay, .units => some .day
  | .halfDay, .units => some .halfDay
  | .specifiedMinutes, .units => do
      let minutes ← record.minutes
      Amount.ofInt? ((minutes.val * Amount.day.val).tdiv (← working).val)
  | .specifiedMinutes, .minutes => record.minutes
  | .allDay, .minutes | .assignAllDay, .minutes => working
  | .halfDay, .minutes => do Amount.ofInt? ((← working).val / 2)

end Entitlement
