import Entitlement.Rule.Category

/-!
Which categories a scan leaves out. Compensatory rest is left out unless asked for, since it has no
chain of periods.
-/

namespace Entitlement

structure ScanSettings where
  excludedPatterns : OrderedSet Pattern
  excludedCategories : OrderedSet CategoryName
deriving DecidableEq

namespace ScanSettings

def standard : ScanSettings := ⟨.ofList [.compensatoryRest], ∅⟩

/-- Nothing is left out. -/
def everything : ScanSettings := ⟨∅, ∅⟩

def excludes (settings : ScanSettings) (category : Category) : Bool :=
  settings.excludedPatterns.contains category.pattern ||
    settings.excludedCategories.contains category.name

end ScanSettings

end Entitlement
