import Entitlement.Ordered.Map
import Entitlement.Person
import Entitlement.Problem.Basic

/-!
The ledger: absence records, the troubles annotated on them, and the attendance days that replacing
records belong to. One counter gives identifiers to all three tables, another counts the writes. An
action on the ledger answers or fails, and leaves a ledger behind in both cases; inside a transaction
a failure leaves the ledger that was there before. Identifiers are counted with 64 bits. An action that
needs one when the count has come to its end breaks off, without an answer and without a ledger.
-/

namespace Entitlement

/-- A problem annotated on a record. -/
structure Trouble where
  id : TroubleId
  absence : AbsenceId
  problem : Problem
deriving DecidableEq

structure Ledger where
  absences : OrderedMap AbsenceId Absence
  troubles : OrderedMap TroubleId Trouble
  /-- The attendance day of a person on a date. -/
  days : OrderedMap (PersonId × Date) DayId
  /-- The least identifier not given yet. -/
  nextId : Nat
  /-- How many writes there have been. -/
  mutations : Nat
deriving DecidableEq

/-- How an action on a ledger ends: with an answer or an error, and the ledger after it, or with neither
because the identifiers are exhausted. -/
inductive ActionResult (ε α : Type) where
  | ok (answer : α) (after : Ledger)
  | error (error : ε) (after : Ledger)
  | exhausted

/-- What is done to a ledger. -/
def LedgerAction (ε α : Type) := Ledger → ActionResult ε α

instance {ε : Type} : Monad (LedgerAction ε) where
  pure answer := fun ledger => .ok answer ledger
  bind first next := fun ledger =>
    match first ledger with
    | .ok answer after => next answer after
    | .error error after => .error error after
    | .exhausted => .exhausted

namespace Ledger

/-- The greatest number that identifiers are counted with. -/
def greatestId : Nat := 0xffffffffffffffff

def empty : Ledger := ⟨∅, ∅, ∅, 1, 0⟩

/-- The records of a person dated from `first` to `last`, in order. -/
def absencesIn (ledger : Ledger) (person : PersonId) (first last : Date) : List Absence :=
  Absence.inOrder (ledger.absences.values.filter fun a =>
    a.person = person && first ≤ a.date && a.date ≤ last)

def record? (ledger : Ledger) (id : AbsenceId) : Option Absence :=
  ledger.absences.get? id

def holds (ledger : Ledger) (id : AbsenceId) : Bool :=
  (ledger.record? id).isSome

/-- The annotations of a record, by identifier. -/
def troublesOf (ledger : Ledger) (absence : AbsenceId) : List Trouble :=
  ledger.troubles.values.filter fun t => t.absence = absence

def day? (ledger : Ledger) (person : PersonId) (date : Date) : Option DayId :=
  ledger.days.get? (person, date)

/-- The person of the first attendance day, by person and date, that has an identifier. -/
def dayOwner? (ledger : Ledger) (day : DayId) : Option PersonId :=
  (ledger.days.toList.find? fun e => e.2 = day).map (·.1.1)

/-- The identifier that the next entry gets. -/
def freshId (ledger : Ledger) : Nat :=
  max ledger.nextId 1

/-- Writes an entry under the next identifier, if the one after that can still be counted. -/
def allocating {ε α : Type} (write : Ledger → α × Ledger) : LedgerAction ε α := fun ledger =>
  if ledger.freshId < greatestId then .ok (write ledger).1 (write ledger).2 else .exhausted

/-- Puts a record that has its identifier already. This is no counted write. -/
def putAbsence (record : Absence) : LedgerAction LedgerRefusal Unit := fun ledger =>
  if record.id < greatestId then
    .ok () { ledger with
      absences := ledger.absences.insert record.id record
      nextId := max ledger.nextId (record.id + 1) }
  else .exhausted

/-- Whether a record may refer to an attendance day: the day exists and is the person's own. -/
def checkDay (ledger : Ledger) (record : AbsenceDraft) : Except LedgerRefusal Unit :=
  match record.day with
  | none => return ()
  | some day =>
    match ledger.dayOwner? day with
    | none => throw (.notFound .attendanceDay day)
    | some owner =>
      if owner = record.person then return ()
      else throw (.personMismatch day record.person owner)

/-- Writes a record under the next identifier. -/
def placeAbsence (ledger : Ledger) (record : AbsenceDraft) : Absence × Ledger :=
  let record := { record with id := ledger.freshId : Absence }
  (record, { ledger with
    absences := ledger.absences.insert record.id record
    nextId := ledger.freshId + 1
    mutations := ledger.mutations + 1 })

/-- Writes a record, unless it refers to a day that is not the person's. -/
def addAbsence (record : AbsenceDraft) : LedgerAction LedgerRefusal Absence := fun ledger =>
  match ledger.checkDay record with
  | .error error => .error error ledger
  | .ok () => allocating (·.placeAbsence record) ledger

/-- Deletes a record and the annotations on it; tells whether there was one. -/
def removeAbsence (ledger : Ledger) (id : AbsenceId) : Bool × Ledger :=
  if ledger.holds id then
    (true, { ledger with
      absences := ledger.absences.erase id
      troubles := ledger.troubles.filter fun _ t => t.absence ≠ id
      mutations := ledger.mutations + 1 })
  else (false, ledger)

/-- Writes an annotation under the next identifier. -/
def putTrouble (ledger : Ledger) (absence : AbsenceId) (problem : Problem) : Trouble × Ledger :=
  let trouble : Trouble := ⟨ledger.freshId, absence, problem⟩
  (trouble, { ledger with
    troubles := ledger.troubles.insert trouble.id trouble
    nextId := ledger.freshId + 1
    mutations := ledger.mutations + 1 })

/-- Annotates a record that is in the ledger. -/
def annotate (absence : AbsenceId) (problem : Problem) : LedgerAction LedgerRefusal Trouble :=
  fun ledger =>
    if ledger.holds absence then allocating (·.putTrouble absence problem) ledger
    else .error (.notFound .absence absence) ledger

/-- Deletes an annotation; tells whether there was one. -/
def removeTrouble (ledger : Ledger) (id : TroubleId) : Bool × Ledger :=
  if ledger.troubles.contains id then
    (true, { ledger with
      troubles := ledger.troubles.erase id
      mutations := ledger.mutations + 1 })
  else (false, ledger)

/-- Writes an attendance day under the next identifier. -/
def putDay (ledger : Ledger) (person : PersonId) (date : Date) : DayId × Ledger :=
  (ledger.freshId, { ledger with
    days := ledger.days.insert (person, date) ledger.freshId
    nextId := ledger.freshId + 1
    mutations := ledger.mutations + 1 })

/-- The attendance day of a person on a date, created if there is none. -/
def ensureDay (person : PersonId) (date : Date) : LedgerAction LedgerRefusal DayId := fun ledger =>
  match ledger.day? person date with
  | some day => .ok day ledger
  | none => allocating (·.putDay person date) ledger

/-- Runs an action so that a failure leaves the ledger as it was. -/
def atomically {ε α : Type} (action : LedgerAction ε α) : LedgerAction ε α := fun ledger =>
  match action ledger with
  | .ok answer after => .ok answer after
  | .error error _ => .error error ledger
  | .exhausted => .exhausted

end Ledger

end Entitlement
