import Entitlement.Amount.Basic
import Entitlement.Calendar.Date

/-!
Absence records: who was absent on which date, under which code, and how the record justifies the
working day.
-/

namespace Entitlement

abbrev PersonId := Nat

abbrev AbsenceId := Nat

abbrev TroubleId := Nat

abbrev DayId := Nat

abbrev DependentId := Nat

/-- The code an absence is recorded under. -/
abbrev Code := String

abbrev CategoryName := String

/-- How a record justifies the working day it falls on. A replacing record justifies nothing. -/
inductive Justification where
  | specifiedMinutes
  | allDay
  | assignAllDay
  | halfDay
  | nothing
deriving DecidableEq, Repr

namespace Justification

def isUncounted (kind : Justification) : Bool :=
  kind = nothing

def fillsDay (kind : Justification) : Bool :=
  kind = allDay || kind = assignAllDay

end Justification

/-- A record without its identifier, which the ledger gives. -/
structure AbsenceDraft where
  person : PersonId
  code : Code
  date : Date
  kind : Justification
  minutes : Option Amount
  day : Option DayId
deriving DecidableEq

structure Absence extends AbsenceDraft where
  id : AbsenceId
deriving DecidableEq

/-- Records come before others by date, and by identifier on one date. -/
def Absence.notAfter (a b : Absence) : Bool :=
  decide (a.date < b.date ∨ (a.date = b.date ∧ a.id ≤ b.id))

/-- Records in the order of their dates and identifiers; equal ones keep their order. -/
def Absence.inOrder (l : List Absence) : List Absence :=
  l.mergeSort notAfter

end Entitlement
