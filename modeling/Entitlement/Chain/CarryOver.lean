import Entitlement.Chain.Charging
import Entitlement.Chain.Layout

/-!
What a carry-over period may use: the part of its source that was left over in the year before. It is
found by replaying the source and the carry-over year by year, from the first year with records on.
-/

namespace Entitlement

namespace Chain

/-- The two ends of a carry-over: its own category, the category it draws on, and the last month in
which it can be used. -/
structure CarryOver where
  carry : Category
  source : Category
  untilMonth : Nat

/-- The carry-over that sets the limit of a period, if it is one. -/
def carryOver? (rules : RuleTree) (period : Period) : Option CarryOver :=
  match period.category.period with
  | .previousYear source untilMonth =>
    (rules.category? source).bind fun origin =>
      if origin.takable.isSome then some ⟨period.category, origin, untilMonth⟩ else none
  | _ => none

namespace CarryOver

/-- The full limit of the source in a year, accrued over the contract. -/
def fullGrant (source : Category) (year : Int) (profile : Profile) : Amount :=
  ((DateRange.year? year).bind fun range =>
    (profile.latestOverlap? range).map fun clipped => max (source.limitFor range clipped) 0).getD 0

/-- The periods of one replayed year: the carry-over with what came over from the year before, then
the source. -/
def yearPeriods (link : CarryOver) (profile : Profile) (year : Int) (range : DateRange)
    (carried : Amount) : List Period :=
  let window := (DateRange.throughMonth? year link.untilMonth).bind profile.latestOverlap?
  let carry := window.map fun clipped => Period.start link.carry clipped carried
    (link.carry.initializationIn clipped profile.initializations)
  let source := (profile.latestOverlap? range).map fun clipped =>
    Period.start link.source clipped (link.source.limitFor range clipped)
      (link.source.initializationIn clipped profile.initializations)
  carry.toList ++ source.toList

/-- What the source has left at the end of a replayed year. -/
def leftOver (link : CarryOver) (periods : List Period) : Amount :=
  ((periods.find? fun period => period.name = link.source.name).bind (·.remaining)).elim 0
    fun r => max r 0

/-- Replays one year: what came over and the errors so far become those after the year. -/
def replayYear (link : CarryOver) (working : Date → Option Amount) (profile : Profile)
    (history : List Absence) (state : Amount × List CriticalError) (year : Int) :
    Amount × List CriticalError :=
  match DateRange.year? year with
  | none => state
  | some range =>
    let records := history.filter fun a => a.date.year = year
    let periods := records.foldl (fun periods a => (offer (working a.date) a periods).1)
      (link.yearPeriods profile year range state.1)
    (link.leftOver periods, state.2 ++ periods.flatMap fun period => period.findings.critical)

/-- The years from `first` up to but not including `limit`. -/
def years (first limit : Int) : List Int :=
  (List.range (limit - first).toNat).map fun (i : Nat) => first + (i : Int)

/-- The records of the source before a year, in order. -/
def history (link : CarryOver) (person : PersonId) (year : Int) (records : List Absence) :
    List Absence :=
  Absence.inOrder (records.filter fun a =>
    a.person = person && a.date.year < year && link.source.takes a.code)

/-- What is carried into a year, with the errors met while finding it. -/
def replay (link : CarryOver) (working : WorkingTime) (person : PersonId) (profile : Profile)
    (year : Int) (records : List Absence) : Amount × List CriticalError :=
  let history := link.history person year records
  let first := history.head?.elim year (·.date.year)
  (years first year).foldl (link.replayYear (working person) profile history)
    (fullGrant link.source (first - 1) profile, [])

end CarryOver

/-- Gives a carry-over period its limit. Errors met in the replay compromise it. -/
def seedPeriod (rules : RuleTree) (working : WorkingTime) (pivot : Pivot)
    (records : List Absence) (period : Period) : Period :=
  match carryOver? rules period with
  | none => period
  | some link =>
    let (carried, errors) :=
      link.replay working pivot.person pivot.profile pivot.date.year records
    errors.foldl Period.compromise (period.seed carried)

end Chain

end Entitlement
