import Entitlement.Absence.Record
import Entitlement.Ordered.Set

/-!
The rules of an absence category: the period it runs over, the codes it takes and their limit, the
codes that complete it into replacing ones, and the category that follows once it is exhausted.
-/

namespace Entitlement

/-- How the limit of a category behaves: fixed per period, or growing with the contract days the
period covers. Compensatory rest has no chain of periods. -/
inductive Pattern where
  | programmed
  | vacations
  | compensatoryRest
deriving DecidableEq, Repr

namespace Pattern

def rank : Pattern → Nat
  | programmed => 0
  | vacations => 1
  | compensatoryRest => 2

instance : Ordered Pattern := .byKey rank (by
  intro a b
  cases a <;> cases b <;> simp [rank])

/-- The written name of a pattern. -/
def key : Pattern → String
  | programmed => "programmed"
  | vacations => "vacations"
  | compensatoryRest => "compensatory_rest"

/-- The name of a pattern in messages. -/
def title : Pattern → String
  | programmed => "Programmed"
  | vacations => "Vacations"
  | compensatoryRest => "CompensatoryRest"

def all : List Pattern := [programmed, vacations, compensatoryRest]

def ofKey? (s : String) : Option Pattern :=
  all.find? fun pattern => pattern.key = s

end Pattern

/-- The stretch of time a limit applies to. -/
inductive PeriodRule where
  | always
  | year
  | month
  /-- What `source` left unused in the calendar year before, from January to the end of a month. -/
  | previousYear (source : CategoryName) (untilMonth : Nat)
  /-- From one birthday of the `ordinal`-th qualifying child, counted from one by birth date, to the
  day before another. -/
  | child (ordinal fromYears toYears : Nat)
deriving DecidableEq

/-- A limit on the amounts of some codes, counted in one unit. A negative limit is none. -/
structure Takable where
  unit : AmountUnit
  codes : OrderedSet Code
  limit : Amount
deriving DecidableEq

def Takable.isUnlimited (takable : Takable) : Bool :=
  decide (takable.limit < 0)

/-- A code that stands for a fixed amount once completions have reached it. -/
structure ReplacingCode where
  code : Code
  amount : Amount
deriving DecidableEq

/-- Completing codes whose amounts add up, and the codes that replace them. -/
structure Completion where
  unit : AmountUnit
  codes : OrderedSet Code
  replacing : List ReplacingCode
deriving DecidableEq

namespace Completion

def isReplacing (completion : Completion) (code : Code) : Bool :=
  completion.replacing.any fun r => r.code = code

/-- Of two candidates the one with the greater amount, the later one if the amounts agree. -/
def better (best : Option ReplacingCode) (r : ReplacingCode) : Option ReplacingCode :=
  match best with
  | none => some r
  | some b => if r.amount < b.amount then some b else some r

/-- The replacing code with the largest positive amount that fits in a residual. -/
def largestFitting (completion : Completion) (residual : Amount) : Option ReplacingCode :=
  (completion.replacing.filter fun r => 0 < r.amount && r.amount ≤ residual).foldl better none

/-- The last code before an entry that has its amount. -/
def conflictAmong (seen : List ReplacingCode) : List ReplacingCode →
    Option (ReplacingCode × ReplacingCode)
  | [] => none
  | r :: rest =>
    match seen.find? fun s => s.amount = r.amount with
    | some s => some (s, r)
    | none => conflictAmong (r :: seen) rest

/-- The first two replacing codes that share an amount. -/
def conflict? (completion : Completion) : Option (ReplacingCode × ReplacingCode) :=
  conflictAmong [] completion.replacing

/-- The codes of both kinds. -/
def allCodes (completion : Completion) : List Code :=
  completion.codes.toList ++ completion.replacing.map (·.code)

end Completion

structure Category where
  name : CategoryName
  description : String
  pattern : Pattern
  period : PeriodRule
  takable : Option Takable
  completion : Option Completion
  next : Option CategoryName
  /-- Replacing records of the category are kept up by repairs. -/
  automatic : Bool
  /-- Balances entered by hand are honoured. -/
  initializable : Bool
deriving DecidableEq

namespace Category

def isUnlimited (category : Category) : Bool :=
  category.takable.any (·.isUnlimited)

def isChildBound (category : Category) : Bool :=
  match category.period with
  | .child .. => true
  | _ => false

/-- The category whose unused entitlement this one carries over. -/
def carrySource? (category : Category) : Option CategoryName :=
  match category.period with
  | .previousYear source _ => some source
  | _ => none

def takes (category : Category) (code : Code) : Bool :=
  category.takable.any fun t => t.codes.contains code

def completes (category : Category) (code : Code) : Bool :=
  category.completion.any fun c => c.codes.contains code

def replaces (category : Category) (code : Code) : Bool :=
  category.completion.any fun c => c.isReplacing code

/-- Every code whose records feed the category. -/
def codes (category : Category) : OrderedSet Code :=
  .ofList ((category.takable.elim [] fun t => t.codes.toList) ++
    category.completion.elim [] Completion.allCodes)

end Category

/-- An entry of the code catalog: how records of the code may justify the day. -/
structure CodeEntry where
  code : Code
  description : String
  kinds : List Justification
deriving DecidableEq

def CodeEntry.uncountedKinds (entry : CodeEntry) : List Justification :=
  entry.kinds.filter (·.isUncounted)

end Entitlement
