import Entitlement.Ordered.Map
import Entitlement.Problem.Basic

/-!
Findings: the problems raised so far, by record, and the critical errors in order of their first
arrival. Findings absorb others; nothing is kept twice.
-/

namespace Entitlement

structure Findings where
  problems : OrderedMap AbsenceId (OrderedSet Problem)
  critical : List CriticalError
deriving DecidableEq

namespace Findings

def empty : Findings := ⟨∅, []⟩

instance : EmptyCollection Findings := ⟨empty⟩

/-- The problems of a record. -/
def problemsOf (findings : Findings) (absence : AbsenceId) : OrderedSet Problem :=
  (findings.problems.get? absence).getD ∅

def addProblem (findings : Findings) (absence : AbsenceId) (problem : Problem) : Findings :=
  { findings with
    problems := findings.problems.insert absence ((findings.problemsOf absence).insert problem) }

def addCritical (findings : Findings) (error : CriticalError) : Findings :=
  if error ∈ findings.critical then findings
  else { findings with critical := findings.critical ++ [error] }

/-- All pairs of a record and a problem of it. -/
def pairs (findings : Findings) : List (AbsenceId × Problem) :=
  findings.problems.toList.flatMap fun (absence, problems) =>
    problems.toList.map fun problem => (absence, problem)

/-- Adds everything that other findings hold. -/
def merge (findings other : Findings) : Findings :=
  other.critical.foldl addCritical
    (other.pairs.foldl (fun findings p => findings.addProblem p.1 p.2) findings)

def contains (findings : Findings) (absence : AbsenceId) (problem : Problem) : Bool :=
  (findings.problemsOf absence).contains problem

def hasCritical (findings : Findings) : Bool :=
  !findings.critical.isEmpty

def isEmpty (findings : Findings) : Bool :=
  findings.problems.isEmpty && findings.critical.isEmpty

end Findings

end Entitlement
