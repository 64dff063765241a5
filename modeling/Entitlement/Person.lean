import Entitlement.Absence.Record
import Entitlement.Calendar.DateRange
import Entitlement.Ordered.Map

/-!
What is known of a person: contracts, dependents, and balances entered by hand.
-/

namespace Entitlement

/-- A contract without an end lasts to the end of the calendar. -/
structure Contract where
  first : Date
  last : Option Date
deriving DecidableEq

namespace Contract

def contains (contract : Contract) (date : Date) : Bool :=
  decide (contract.first ≤ date) && contract.last.all fun last => decide (date ≤ last)

def range (contract : Contract) : DateRange :=
  ⟨contract.first, contract.last.getD .maximum⟩

end Contract

/-- A child that some categories are bound to. An excluded one never qualifies. -/
structure Dependent where
  id : DependentId
  birth : Date
  excluded : Bool
deriving DecidableEq

/-- The balance of one category on one date: what was taken in its period, which completion residual
was carried in, and a limit that replaces the computed one if present. -/
structure Initialization where
  category : CategoryName
  date : Date
  taken : Amount
  completion : Amount
  limit : Option Amount
deriving DecidableEq

structure Profile where
  contracts : List Contract
  dependents : List Dependent
  initializations : List Initialization
deriving DecidableEq

/-- A person of whom nothing is known. -/
def Profile.empty : Profile := ⟨[], [], []⟩

/-- The profiles of all persons. -/
abbrev Directory := OrderedMap PersonId Profile

def Directory.profile (directory : Directory) (person : PersonId) : Profile :=
  (directory.get? person).getD .empty

end Entitlement
