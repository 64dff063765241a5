import Entitlement.Ledger.Basic
import Entitlement.Problem.Findings

/-!
Reconciling annotations with findings: an annotation stays if its problem was found and no earlier
annotation of the record says the same, all others go, and problems without one get one. Records that
were removed are left alone.
-/

namespace Entitlement

/-- How many annotations were written and how many deleted. -/
structure TroubleCount where
  added : Nat
  removed : Nat
deriving DecidableEq

namespace TroubleCount

def zero : TroubleCount := ⟨0, 0⟩

def add (a b : TroubleCount) : TroubleCount :=
  ⟨a.added + b.added, a.removed + b.removed⟩

end TroubleCount

namespace Ledger

/-- Splits annotations into those kept, the first of each wanted problem, and those to delete. -/
def splitTroubles (wanted kept : OrderedSet Problem) :
    List Trouble → OrderedSet Problem × List TroubleId
  | [] => (kept, [])
  | trouble :: rest =>
    if wanted.contains trouble.problem && !kept.contains trouble.problem then
      splitTroubles wanted (kept.insert trouble.problem) rest
    else
      let (kept, stale) := splitTroubles wanted kept rest
      (kept, trouble.id :: stale)

/-- Deletes annotations and counts those that were there. -/
def removeTroubles (ledger : Ledger) : List TroubleId → Nat × Ledger
  | [] => (0, ledger)
  | id :: rest =>
    let (found, ledger) := ledger.removeTrouble id
    let (count, ledger) := ledger.removeTroubles rest
    (if found then count + 1 else count, ledger)

def annotateAll (absence : AbsenceId) : List Problem → LedgerAction LedgerRefusal Unit
  | [] => pure ()
  | problem :: rest => do
    let _ ← annotate absence problem
    annotateAll absence rest

/-- Makes the annotations of a record those of the wanted problems. -/
def reconcileRecord (removed : OrderedSet AbsenceId) (wanted : OrderedSet Problem)
    (absence : AbsenceId) : LedgerAction LedgerRefusal TroubleCount := fun ledger =>
  if removed.contains absence || !ledger.holds absence then .ok .zero ledger
  else
    let (kept, stale) := splitTroubles wanted ∅ (ledger.troublesOf absence)
    let missing := (wanted.filter fun problem => !kept.contains problem).toList
    let (deleted, ledger) := ledger.removeTroubles stale
    match annotateAll absence missing ledger with
    | .exhausted => .exhausted
    | .error error ledger => .error error ledger
    | .ok () ledger => .ok ⟨missing.length, deleted⟩ ledger

/-- Reconciles records one after the other. -/
def reconcile (removed : OrderedSet AbsenceId) (findings : Findings) :
    List AbsenceId → LedgerAction LedgerRefusal TroubleCount
  | [] => pure .zero
  | absence :: rest => do
    let count ← reconcileRecord removed (findings.problemsOf absence) absence
    return count.add (← reconcile removed findings rest)

end Ledger

end Entitlement
