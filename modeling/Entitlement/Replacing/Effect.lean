import Entitlement.Ledger.Basic
import Entitlement.Replacing.Repair

/-!
Carrying a repair out: removals first, then additions, each new record on the attendance day of its
date. A record that is gone already is passed by.
-/

namespace Entitlement

/-- What a repair did to the ledger: records deleted, records found gone, records written. -/
structure RepairEffect where
  deleted : List AbsenceId
  skipped : List AbsenceId
  inserted : List Absence
deriving DecidableEq

namespace RepairEffect

def empty : RepairEffect := ⟨[], [], []⟩

def isEmpty (effect : RepairEffect) : Bool :=
  effect.deleted.isEmpty && effect.skipped.isEmpty && effect.inserted.isEmpty

end RepairEffect

namespace Ledger

/-- Deletes records one after the other: those found, those already gone, the ledger after it. -/
def removeAll (ledger : Ledger) : List AbsenceId → List AbsenceId × List AbsenceId × Ledger
  | [] => ([], [], ledger)
  | id :: rest =>
    let (found, ledger) := ledger.removeAbsence id
    let (deleted, skipped, ledger) := ledger.removeAll rest
    if found then (id :: deleted, skipped, ledger) else (deleted, id :: skipped, ledger)

/-- Writes a replacing record on the attendance day of its date. -/
def addReplacing (person : PersonId) (addition : Addition) : LedgerAction LedgerRefusal Absence := do
  let day ← ensureDay person addition.date
  addAbsence ⟨person, addition.code, addition.date, addition.kind, none, some day⟩

def addAll (person : PersonId) : List Addition → LedgerAction LedgerRefusal (List Absence)
  | [] => pure []
  | addition :: rest => do
    let record ← addReplacing person addition
    return record :: (← addAll person rest)

/-- Carries a repair out. -/
def carryOut (repair : Repair) : LedgerAction ScanFailure RepairEffect := fun ledger =>
  let (deleted, skipped, ledger) := ledger.removeAll (repair.removals.map (·.absence))
  match addAll repair.person repair.additions ledger with
  | .exhausted => .exhausted
  | .ok inserted ledger => .ok ⟨deleted, skipped, inserted⟩ ledger
  | .error error ledger => .error (.store error) ledger

end Ledger

end Entitlement
