import Mathlib.Data.Int.Init
import Entitlement.Proofs.Chain.ReplayAgreement
import Entitlement.Proofs.Chain.Seeds

/-!
Idle years of a replay. A record before every contract falls in no period of the years that are replayed, so
such records do no more than let the replay begin earlier; and a year without charges leaves over the whole
limit of the source, whatever was carried into it, which is also what the replay begins with. So the
replay finds the same with and without these records, unless a balance was entered for the source.
-/

namespace Entitlement

open Calendar

/-- Every year of the calendar has a range. -/
theorem DateRange.exists_year {year : Int} (lower : firstYear ≤ year) (upper : year ≤ lastYear) :
    ∃ range, DateRange.year? year = some range := by
  have parts : firstYear ≤ year ∧ year ≤ lastYear ∧ 1 ≤ 1 ∧ 1 ≤ 12 ∧ 1 ≤ 1 ∧
      1 ≤ daysInMonth year 1 :=
    ⟨lower, upper, by decide, by decide, by decide, daysInMonth_pos year 1⟩
  rw [year?, Date.ofParts?, dif_pos parts]
  exact ⟨_, rfl⟩

namespace Profile

def begun (profile : Profile) (record : Absence) : Bool :=
  profile.contracts.any fun contract => decide (contract.first ≤ record.date)

theorem foldl_later {ranges : List DateRange} {latest : Option DateRange} {range : DateRange}
    (h : ranges.foldl later latest = some range) : latest = some range ∨ range ∈ ranges := by
  induction ranges generalizing latest with
  | nil => exact .inl h
  | cons first rest ih =>
    rcases ih h with kept | mem
    · cases latest with
      | none => exact .inr (by simp [Option.some.inj kept])
      | some l =>
        simp only [later] at kept
        split at kept
        · exact .inl kept
        · exact .inr (by simp [Option.some.inj kept])
    · exact .inr (List.mem_cons_of_mem _ mem)

/-- The latest overlap of a range is its part under some contract. -/
theorem latestOverlap?_eq_some {profile : Profile} {range clipped : DateRange}
    (h : profile.latestOverlap? range = some clipped) :
    ∃ contract ∈ profile.contracts, range.intersect contract.range = some clipped := by
  rcases foldl_later h with none | mem
  · cases none
  · exact List.mem_filterMap.1 mem

end Profile

namespace Chain

namespace CarryOver

variable {link : CarryOver} {profile : Profile} {history : List Absence}

def replayOf (link : CarryOver) (working : Date → Option Amount) (profile : Profile) (year : Int)
    (history : List Absence) : Amount × List CriticalError :=
  (years (firstYear history year) year).foldl (link.replayYear working profile history)
    (fullGrant link.source (firstYear history year - 1) profile, [])

/-- A replayed year takes no record before every contract. -/
theorem begun_of_takes {year : Int} {range : DateRange} {carried : Amount} {p : Period}
    (hp : p ∈ link.yearPeriods profile year range carried) {a : Absence} (takes : p.takes a = true) :
    profile.begun a = true := by
  have under {natural clipped : DateRange} (overlap : profile.latestOverlap? natural = some clipped)
      (inside : a.date ∈ clipped) : profile.begun a = true := by
    obtain ⟨contract, mem, clips⟩ := Profile.latestOverlap?_eq_some overlap
    have begins := ((DateRange.mem_of_intersect clips a.date).1 inside).2.1
    exact List.any_eq_true.2 ⟨contract, mem, decide_eq_true begins⟩
  have inside : a.date ∈ p.range := mem_range_of_takes takes
  simp only [yearPeriods, List.mem_append, Option.mem_toList, Option.map_eq_some_iff,
    Option.bind_eq_some_iff] at hp
  rcases hp with ⟨clipped, ⟨natural, -, overlap⟩, rfl⟩ | ⟨clipped, overlap, rfl⟩
  · exact under overlap inside
  · exact under overlap inside

/-- A year is replayed from the records under contracts begun by then. -/
theorem replayYear_begun (working : Date → Option Amount) (history : List Absence)
    (state : Amount × List CriticalError) (year : Int) :
    link.replayYear working profile history state year =
      link.replayYear working profile (history.filter profile.begun) state year := by
  unfold replayYear
  cases DateRange.year? year with
  | none => rfl
  | some range =>
    have untaken (a : Absence) (early : profile.begun a = false) (p : Period)
        (hp : p ∈ link.yearPeriods profile year range state.1) : p.takes a = false := by
      apply Bool.eq_false_iff.2
      intro takes
      rw [begun_of_takes hp takes] at early
      cases early
    have offered := offerAll_filter working untaken (history.filter fun a => a.date.year = year)
    rw [List.filter_comm] at offered
    unfold offerAll at offered
    dsimp only
    rw [offered]

/-- An empty period has its limit left, and nothing if it has none. -/
theorem remaining_start (category : Category) (range : DateRange) (limit : Amount) :
    ((Period.start category range limit none).remaining.elim 0 fun r => max r 0) = max limit 0 := by
  have bounds := limit.lower
  have upper := limit.upper
  have start : (Period.start category range limit none).remaining =
      if limit < 0 then none else some (limit - 0) := by
    simp only [Period.remaining, Period.isUnlimited, decide_eq_true_eq]
    rfl
  rw [start]
  apply Amount.ext
  split
  · next negative =>
    rw [Amount.lt_def, Amount.zero_val] at negative
    rw [Option.elim_none, Amount.max_val, Amount.zero_val]
    omega
  · rw [Option.elim_some, Amount.max_val, Amount.max_val, Amount.sub_val, Amount.zero_val]
    omega

/-- A source into which nothing was entered has its full limit left where nothing is charged. -/
theorem leftOver_yearPeriods (distinct : link.carry.name ≠ link.source.name)
    (bare : ∀ i ∈ profile.initializations, i.category ≠ link.source.name) {year : Int}
    {range : DateRange} (known : DateRange.year? year = some range) (carried : Amount) :
    link.leftOver (link.yearPeriods profile year range carried) = fullGrant link.source year profile := by
  have other (o : Option Period) (h : ∀ p ∈ o, p.category = link.carry) :
      o.toList.find? (fun p => p.name = link.source.name) = none :=
    List.find?_eq_none.2 fun p hp => by
      simpa [Period.name, h p (Option.mem_toList.1 hp)] using distinct
  have unset (clipped : DateRange) :
      link.source.initializationIn clipped profile.initializations = none := by
    unfold Category.initializationIn
    split
    · exact List.find?_eq_none.2 fun i hi => by simp [bare i hi]
    · rfl
  unfold leftOver yearPeriods fullGrant
  dsimp only
  rw [List.find?_append, other _ fun p hp => by
    obtain ⟨clipped, -, rfl⟩ := Option.map_eq_some_iff.1 hp
    rfl, Option.none_or, known, Option.bind_some]
  cases profile.latestOverlap? range with
  | none => rfl
  | some clipped =>
    have named : (Period.start link.source clipped (link.source.limitFor range clipped) none).name =
        link.source.name := rfl
    simp only [Option.map_some, Option.toList_some, unset, List.find?_cons, named, decide_true,
      Option.bind_some, Option.getD_some]
    exact remaining_start link.source clipped (link.source.limitFor range clipped)

/-- A year without records leaves over the whole limit of the source and finds no error. -/
theorem replayYear_idle (distinct : link.carry.name ≠ link.source.name)
    (bare : ∀ i ∈ profile.initializations, i.category ≠ link.source.name) {year : Int}
    (calendar : ∃ range, DateRange.year? year = some range)
    (idle : ∀ a ∈ history, a.date.year ≠ year) (working : Date → Option Amount)
    (state : Amount × List CriticalError) :
    link.replayYear working profile history state year =
      (fullGrant link.source year profile, state.2) := by
  obtain ⟨range, known⟩ := calendar
  have none : history.filter (fun a => a.date.year = year) = [] :=
    List.filter_eq_nil_iff.2 fun a ha => by simpa using idle a ha
  have quiet : ((link.yearPeriods profile year range state.1).flatMap fun p =>
      p.findings.critical) = [] :=
    List.flatMap_eq_nil_iff.2 fun p hp => by
      rw [findings_yearPeriods hp]
      rfl
  simp only [replayYear, known, none, List.foldl_nil, quiet, List.append_nil,
    leftOver_yearPeriods distinct bare known]

/-- Years without records lead from the full limit of the year before the first of them to the full limit of
the last. -/
theorem replay_idle (distinct : link.carry.name ≠ link.source.name)
    (bare : ∀ i ∈ profile.initializations, i.category ≠ link.source.name) (working : Date → Option Amount)
    {first limit : Int} (order : first ≤ limit)
    (calendar : ∀ year, first ≤ year → year < limit → ∃ range, DateRange.year? year = some range)
    (idle : ∀ a ∈ history, limit ≤ a.date.year) :
    (years first limit).foldl (link.replayYear working profile history)
        (fullGrant link.source (first - 1) profile, []) =
      (fullGrant link.source (limit - 1) profile, []) := by
  induction limit, order using Int.leInduction with
  | base => rw [years_self, List.foldl_nil]
  | succ year order ih =>
    have before := ih (fun y lower upper => calendar y lower (Int.lt_trans upper (Int.lt_succ year)))
      fun a ha => Int.le_trans (Int.le_of_lt (Int.lt_succ year)) (idle a ha)
    have present := replayYear_idle distinct bare (calendar year order (Int.lt_succ year))
      (fun a ha same => absurd (idle a ha) (by omega)) working
      (fullGrant link.source (year - 1) profile, [])
    rw [years_succ order, List.foldl_append, before, List.foldl_cons, List.foldl_nil, present,
      Int.add_sub_cancel]

theorem years_append {first middle limit : Int} (early : first ≤ middle) (late : middle ≤ limit) :
    years first limit = years first middle ++ years middle limit := by
  induction limit, late using Int.leInduction with
  | base => rw [years_self, List.append_nil]
  | succ year late ih =>
    rw [years_succ (Int.le_trans early late), years_succ late, ih, List.append_assoc]

/-- A history in order begins in its earliest year. -/
theorem firstYear_le_of_mem (sorted : history.Pairwise fun a b => a.notAfter b) (year : Int)
    {a : Absence} (ha : a ∈ history) : firstYear history year ≤ a.date.year := by
  cases history with
  | nil => exact absurd ha List.not_mem_nil
  | cons b rest =>
    rcases List.mem_cons.1 ha with rfl | later
    · exact Int.le_refl _
    · exact Date.year_le_of_le (Absence.date_le_of_notAfter (List.rel_of_pairwise_cons sorted later))

/-- Leaving out the records before every contract does not change what the replay finds. -/
theorem replayOf_begun (distinct : link.carry.name ≠ link.source.name)
    (bare : ∀ i ∈ profile.initializations, i.category ≠ link.source.name) (working : Date → Option Amount)
    (sorted : history.Pairwise fun a b => a.notAfter b) {year : Int} (upper : year ≤ lastYear)
    (early : ∀ a ∈ history, a.date.year < year) :
    link.replayOf working profile year history =
      link.replayOf working profile year (history.filter profile.begun) := by
  have order : firstYear history year ≤ firstYear (history.filter profile.begun) year := by
    cases kept : history.filter profile.begun with
    | nil => exact firstYear_le early
    | cons b rest =>
      have mem : b ∈ history := (List.mem_filter.1 (kept ▸ List.mem_cons_self)).1
      exact firstYear_le_of_mem sorted year mem
  have within : firstYear (history.filter profile.begun) year ≤ year :=
    firstYear_le fun a ha => early a (List.mem_filter.1 ha).1
  have calendar (y : Int) (lower : firstYear history year ≤ y)
      (before : y < firstYear (history.filter profile.begun) year) :
      ∃ range, DateRange.year? y = some range := by
    refine DateRange.exists_year ?_ (by omega)
    cases records : history with
    | nil =>
      rw [records] at lower before
      exact absurd before (Int.not_lt.2 lower)
    | cons a rest =>
      rw [records] at lower
      exact Int.le_trans a.date.firstYear_le lower
  have idle := replay_idle distinct bare working order calendar
    fun a ha => firstYear_le_of_mem (sorted.filter _) year ha
  have same : link.replayYear working profile history =
      link.replayYear working profile (history.filter profile.begun) :=
    funext fun state => funext fun y => replayYear_begun working history state y
  rw [replayOf, same, years_append order within, List.foldl_append, idle, replayOf]

end CarryOver

end Chain

end Entitlement
