import Entitlement.Absence.Weight
import Entitlement.Ledger.Basic

/-!
Ledger documents: the contents of a ledger as lists, with the working minutes and the profiles of the
persons. Loading keeps the last of the entries that share a key; saving lists a ledger by key.
-/

namespace Entitlement

structure AttendanceDay where
  id : DayId
  person : PersonId
  date : Date
deriving DecidableEq

structure LedgerDocument where
  absences : List Absence
  troubles : List Trouble
  days : List AttendanceDay
  workingMinutes : OrderedMap PersonId Amount
  persons : Directory
deriving DecidableEq

def LedgerDocument.empty : LedgerDocument := ⟨[], [], [], ∅, ∅⟩

/-- The same working minutes on every date for each of the listed persons. -/
def WorkingTime.perPerson (minutes : OrderedMap PersonId Amount) : WorkingTime :=
  fun person _ => minutes.get? person

/-- Working minutes that depend on the date alone. -/
def WorkingTime.byDate (minutes : OrderedMap Date Amount) : WorkingTime :=
  fun _ date => minutes.get? date

namespace Ledger

/-- The ledger of a document. Its next identifier is above all that occur. -/
def ofDocument (document : LedgerDocument) : Ledger :=
  let absences := OrderedMap.ofList (document.absences.map fun a => (a.id, a))
  let troubles := OrderedMap.ofList (document.troubles.map fun t => (t.id, t))
  let days := OrderedMap.ofList (document.days.map fun d => ((d.person, d.date), d.id))
  let ids := absences.keys ++ troubles.keys ++ days.values
  ⟨absences, troubles, days, ids.foldl max 0 + 1, 0⟩

/-- Loads a document. Its identifiers must leave one to go on counting from. -/
def load? (document : LedgerDocument) : Option Ledger :=
  if (ofDocument document).nextId ≤ greatestId then some (ofDocument document) else none

/-- A document with the contents of a ledger, and the persons and working minutes of another
document. -/
def toDocument (ledger : Ledger) (document : LedgerDocument) : LedgerDocument :=
  { document with
    absences := ledger.absences.values
    troubles := ledger.troubles.values
    days := ledger.days.toList.map fun ((person, date), id) => ⟨id, person, date⟩ }

end Ledger

end Entitlement
