import Entitlement.Amount.Accrual
import Entitlement.Chain.Basic
import Entitlement.Rule.Path

/-!
Laying out the empty periods of a chain. The walk starts at the head of the chain, follows the
successors, and stops behind the requested category at the first one without a limit. A category
without a qualifying child empties the chain; a carry-over whose window misses the contract is
skipped.
-/

namespace Entitlement

open DateRange

/-- The unit of a category with a limit that can be used up. -/
def Category.limitedUnit? (category : Category) : Option AmountUnit :=
  (category.takable.filter fun t => !t.isUnlimited).map (·.unit)

/-- The limit of a period that covers `clipped` of its natural range. The limits of vacations
accrue; a period without a limit of its own has a negative one. -/
def Category.limitFor (category : Category) (natural clipped : DateRange) : Amount :=
  match category.takable with
  | none => -1
  | some takable =>
    if takable.isUnlimited then takable.limit
    else match category.pattern with
      | .vacations =>
        (accrue? takable.limit takable.unit clipped.days natural.days).getD 0
      | .programmed | .compensatoryRest => takable.limit

/-- The first balance entered for a category inside a range, if the category honours balances. -/
def Category.initializationIn (category : Category) (range : DateRange)
    (initializations : List Initialization) : Option Initialization :=
  if category.initializable then
    initializations.find? fun i => i.category = category.name && range.contains i.date
  else none

namespace Profile

/-- The first contract that contains a date. -/
def contractOn? (profile : Profile) (date : Date) : Option Contract :=
  profile.contracts.find? fun contract => contract.contains date

/-- Of two ranges the one that begins later, the second if they begin together. -/
def later (latest : Option DateRange) (range : DateRange) : Option DateRange :=
  match latest with
  | none => some range
  | some l => if range.first < l.first then some l else some range

/-- The part of a range under the latest contract that overlaps it. -/
def latestOverlap? (profile : Profile) (range : DateRange) : Option DateRange :=
  (profile.contracts.filterMap fun contract => range.intersect contract.range).foldl later none

/-- The days from the first begin of a contract up to the day before `until`. -/
def daysBefore? (profile : Profile) (limit : Date) : Option DateRange := do
  let first ← (profile.contracts.map (·.first)).min?
  let last ← limit.pred?
  if first ≤ last then some ⟨first, last⟩ else none

/-- The dependents that qualify, by birth date and identifier. -/
def children (profile : Profile) : List Dependent :=
  (profile.dependents.filter fun d => !d.excluded).mergeSort fun a b =>
    decide (a.birth < b.birth ∨ (a.birth = b.birth ∧ a.id ≤ b.id))

/-- The child with an ordinal counted from one. -/
def child? (profile : Profile) : Nat → Option Dependent
  | 0 => none
  | ordinal + 1 => profile.children[ordinal]?

end Profile

namespace Chain

def checkCarry (rules : RuleTree) (category : Category) (source : CategoryName)
    (untilMonth : Nat) : Except Fault Unit := do
  if untilMonth < 1 ∨ 12 < untilMonth then
    throw (.malformedRules (.carryMonth category.name untilMonth))
  match rules.category? source with
  | none => throw (.malformedRules (.carryUnknown category.name source))
  | some origin =>
    if category.limitedUnit?.isSome && category.limitedUnit? = origin.limitedUnit? &&
        origin.carrySource?.isNone then
      return ()
    else
      throw (.malformedRules (.carryMismatch category.name source))

/-- What a category needs to take part in a chain. -/
def check (rules : RuleTree) (category : Category) : Except Fault Unit := do
  if category.pattern = .compensatoryRest then
    throw (.unsupportedPattern category.pattern)
  if category.takable.isNone && category.completion.isNone then
    throw (.malformedRules (.noBehaviour category.name))
  if let some (first, second) := category.completion.bind (·.conflict?) then
    throw (.conflictingAmounts first.code second.code first.amount)
  if let .previousYear source untilMonth := category.period then
    checkCarry rules category source untilMonth

/-- The range of a child-bound period: between two birthdays of the child, if the pivot lies there. -/
def childRange (name : CategoryName) (child : Dependent) (fromYears toYears : Nat) (date : Date) :
    Except Fault (Option DateRange) :=
  let range? := do
    let first ← child.birth.addMonths? (fromYears * 12)
    let last ← (← child.birth.addMonths? (toYears * 12)).pred?
    return DateRange.mk first last
  match range? with
  | none => throw (.malformedRules (.overflowsCalendar name))
  | some range =>
    if range.last < range.first then throw (.malformedRules (.emptyChildPeriod name))
    else return if date ∈ range then some range else none

/-- The period a category describes around the pivot before it is cut to the contract; `none` when
no child qualifies. -/
def rangeAround (pivot : Pivot) (contract : Contract) (category : Category) :
    Except Fault (Option DateRange) :=
  let inCalendar (range : Option DateRange) : Except Fault (Option DateRange) :=
    match range with
    | none => throw (.malformedRules (.overflowsCalendar category.name))
    | some range => return some range
  match category.period with
  | .always => return some contract.range
  | .year => return some (yearAround pivot.date)
  | .month => inCalendar (monthAround? pivot.date)
  | .previousYear _ untilMonth => inCalendar (throughMonth? pivot.date.year untilMonth)
  | .child ordinal fromYears toYears =>
    match pivot.profile.child? ordinal with
    | none => return none
    | some child => childRange category.name child fromYears toYears pivot.date

/-- The empty period of a category. What a carry-over grants is not known yet. -/
def emptyPeriod (pivot : Pivot) (category : Category) (natural range : DateRange) :
    Period :=
  let limit := if category.carrySource?.isSome then 0 else category.limitFor natural range
  .start category range limit (category.initializationIn range pivot.profile.initializations)

/-- How a walk that has reached its end without stopping answers. -/
def finish : RuleTree.PathEnd → Except Fault Unit
  | .complete => return ()
  | .unknown category next => throw (.malformedRules (.unknownSuccessor category.name next))
  | .revisits category => throw (.malformedRules (.appearsTwice category.name))

/-- The periods of the categories on a walk, `none` when a child is missing. Once the requested
category is reached, an unlimited one absorbs everything and ends the walk. -/
def layPeriods (rules : RuleTree) (pivot : Pivot) (contract : Contract)
    (ending : RuleTree.PathEnd) (reached : Bool) :
    List Category → Except Fault (Option (List Period))
  | [] => do
    finish ending
    return some []
  | category :: rest => do
    let reached := reached || category.name = pivot.category
    check rules category
    match ← rangeAround pivot contract category with
    | none => return none
    | some natural =>
      match natural.intersect contract.range with
      | none =>
        if category.carrySource?.isNone then
          throw (.malformedRules (.missesContract category.name))
        layPeriods rules pivot contract ending reached rest
      | some range =>
        let period := emptyPeriod pivot category natural range
        if reached && category.isUnlimited then return some [period]
        return (← layPeriods rules pivot contract ending reached rest).map (period :: ·)

/-- The chain of a pivot with its periods still empty. Without a contract on the pivot it has
none. -/
def layOut (rules : RuleTree) (pivot : Pivot) : Except CriticalError Chain :=
  let critical (fault : Fault) : CriticalError := ⟨pivot.category, pivot.date, none, fault⟩
  match rules.category? pivot.category with
  | none => throw (critical (.malformedRules (.unknownCategory pivot.category)))
  | some start =>
    match pivot.profile.contractOn? pivot.date with
    | none => return blank pivot
    | some contract =>
      let path := rules.pathFrom (rules.head start)
      match layPeriods rules pivot contract path.ending false path.categories with
      | .error fault => throw (critical fault)
      | .ok none => return { blank pivot with childIsMissing := true }
      | .ok (some periods) =>
        let history :=
          if periods.any fun period => period.category.carrySource?.isSome then
            pivot.profile.daysBefore? (yearAround pivot.date).first
          else none
        return { blank pivot with periods := periods, history := history }

end Chain

end Entitlement
