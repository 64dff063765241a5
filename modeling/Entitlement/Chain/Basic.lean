import Entitlement.Period.Basic

/-!
A chain: the periods that govern a category around a date, in the order in which records are offered
to them.
-/

namespace Entitlement

/-- The pivot of a chain: a person, a category and a date, with what is known of the person. -/
structure Pivot where
  person : PersonId
  category : CategoryName
  date : Date
  profile : Profile

structure Chain where
  person : PersonId
  category : CategoryName
  date : Date
  periods : List Period
  /-- A category of the chain is bound to a child that does not exist. -/
  childIsMissing : Bool
  findings : Findings
  /-- Records charged to, completing or replacing in any period. -/
  participants : OrderedSet AbsenceId
  /-- Earlier days whose records decide what is carried over. -/
  history : Option DateRange

namespace Chain

/-- A chain without periods. -/
def blank (pivot : Pivot) : Chain where
  person := pivot.person
  category := pivot.category
  date := pivot.date
  periods := []
  childIsMissing := false
  findings := ∅
  participants := ∅
  history := none

/-- The least range around all periods. -/
def range (chain : Chain) : Option DateRange :=
  match chain.periods with
  | [] => none
  | first :: rest => some (rest.foldl (fun range period => range.span period.range) first.range)

/-- The days whose records the chain needs: those of its periods and of its history. -/
def reach (chain : Chain) : Option DateRange :=
  match chain.range, chain.history with
  | some range, some history => some (range.span history)
  | range, history => range.or history

def codes (chain : Chain) : OrderedSet Code :=
  .ofList (chain.periods.flatMap fun period => period.category.codes.toList)

def categories (chain : Chain) : List CategoryName :=
  chain.periods.map (·.name)

def isCompromised (chain : Chain) : Bool :=
  chain.periods.any fun period => period.compromisedFrom.isSome

/-- What is left over all periods with a limit, overdrawn ones counting as empty, unless one of them
is unlimited. -/
def residual (chain : Chain) : Option Amount :=
  (chain.periods.filter fun period => period.unit?.isSome).foldlM
    (fun sum period => period.remaining.map fun r => sum + max r 0) 0

def balances (chain : Chain) : List Balance :=
  chain.periods.map (·.balance)

end Chain

end Entitlement
