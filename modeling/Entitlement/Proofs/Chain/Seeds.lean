import Mathlib.Data.List.Nodup
import Entitlement.Proofs.Chain.Replay
import Entitlement.Proofs.Chain.Traces

/-!
What a carry-over holds of records before any is brought in. The replay of earlier years compromises it
with errors of theirs, and the carry-over applies in the year of the pivot alone, so no record that it takes
is named by them.
-/

namespace Entitlement

namespace Chain

namespace CarryOver

variable {link : CarryOver} {profile : Profile} {error : CriticalError}

/-- The periods of a replayed year begin without findings. -/
theorem findings_yearPeriods {year : Int} {range : DateRange} {carried : Amount} {p : Period}
    (hp : p ∈ link.yearPeriods profile year range carried) : p.findings = ∅ := by
  simp only [yearPeriods, List.mem_append, Option.mem_toList, Option.map_eq_some_iff] at hp
  rcases hp with ⟨clipped, -, rfl⟩ | ⟨clipped, -, rfl⟩
  · rfl
  · rfl

theorem replayYear_errors {working : Date → Option Amount} {history : List Absence}
    {state : Amount × List CriticalError} {year : Int}
    (h : error ∈ (link.replayYear working profile history state year).2) :
    error ∈ state.2 ∨ ∃ b ∈ history, error.absence = some b.id := by
  unfold replayYear at h
  split at h
  · exact .inl h
  · rcases List.mem_append.1 h with old | met
    · exact .inl old
    · obtain ⟨q, hq, met⟩ := List.mem_flatMap.1 met
      obtain ⟨p, hp, gains⟩ := forall₂_mem_right
        (foldl_gains (fun ps a => offer_gains (working a.date) a ps) _ _) hq
      rcases gains.errors met with old | ⟨b, hb, named⟩
      · rw [findings_yearPeriods hp] at old
        exact absurd old List.not_mem_nil
      · exact .inr ⟨b, (List.mem_filter.1 hb).1, named⟩

/-- The errors of a replay name records of its history. -/
theorem replay_errors {working : WorkingTime} {person : PersonId} {year : Int} {records : List Absence}
    (h : error ∈ (link.replay working person profile year records).2) :
    ∃ b ∈ link.history person year records, error.absence = some b.id := by
  have run (years : List Int) (state : Amount × List CriticalError)
      (h : error ∈ (years.foldl (link.replayYear (working person) profile
        (link.history person year records)) state).2) :
      error ∈ state.2 ∨ ∃ b ∈ link.history person year records, error.absence = some b.id := by
    induction years generalizing state with
    | nil => exact .inl h
    | cons y rest ih =>
      rcases ih _ h with old | named
      · exact replayYear_errors old
      · exact .inr named
  rcases run _ _ h with none | named
  · exact absurd none List.not_mem_nil
  · exact named

end CarryOver

variable {rules : RuleTree} {working : WorkingTime} {pivot : Pivot} {laid : Chain}
  {records : List Absence}

theorem critical_seedPeriod {p : Period} {error : CriticalError}
    (h : error ∈ (seedPeriod rules working pivot records p).findings.critical) :
    error ∈ p.findings.critical ∨ ∃ link, carryOver? rules p = some link ∧
      ∃ b ∈ link.history pivot.person pivot.date.year records, error.absence = some b.id := by
  unfold seedPeriod at h
  cases carries : carryOver? rules p with
  | none =>
    rw [carries] at h
    exact .inl h
  | some link =>
    rw [carries] at h
    dsimp only at h
    rw [findings_compromiseAll, Findings.mem_addCriticals, Period.findings_seed] at h
    rcases h with old | met
    · exact .inl old
    · exact .inr ⟨link, rfl, CarryOver.replay_errors met⟩

/-- A carry-over applies within the year of the pivot. -/
theorem year_of_carryOver (hlaid : layOut rules pivot = .ok laid) {p : Period} (hp : p ∈ laid.periods)
    {link : CarryOver} (carries : carryOver? rules p = some link) {d : Date} (hd : d ∈ p.range) :
    d.year = pivot.date.year := by
  obtain ⟨source, month, period, -⟩ := carryOver_eq_some carries
  obtain ⟨contract, natural, range, around, clipped, empty⟩ := mem_layOut hlaid hp
  obtain ⟨_, same, window⟩ := rangeAround_previousYear period around
  cases same
  rw [empty] at hd
  exact DateRange.year_of_mem_throughMonth window ((DateRange.mem_of_intersect clipped d).1 hd).1

structure Untouched (record : Absence) (p : Period) : Prop where
  charges (d : Date) : p.chargesOf record.id d = []
  exceeded : p.findings.contains record.id .limitExceeded = false
  errors : p.takes record = true → p.findings.errorsOf record.id = []

theorem Untouched.of_spares {record : Absence} {p q : Period} (untouched : Untouched record p)
    (spares : p.Spares record.id q) : Untouched record q where
  charges d := (spares.charges d).trans (untouched.charges d)
  exceeded := spares.exceeded.trans untouched.exceeded
  errors takes := by
    rw [Period.takes_congr (Period.place_of_terms spares.terms)] at takes
    exact spares.errors.trans (untouched.errors takes)

/-- Before any record is brought in, none has left a trace. -/
theorem untouched_seedPeriod (hlaid : layOut rules pivot = .ok laid)
    (distinct : (records.map (·.id)).Nodup) {p : Period} (hp : p ∈ laid.periods)
    {record : Absence} (hrecord : record ∈ records) :
    Untouched record (seedPeriod rules working pivot records p) := by
  obtain ⟨-, natural, range, -, -, empty⟩ := mem_layOut hlaid hp
  refine ⟨fun d => ?_, ?_, fun takes => ?_⟩
  · have days : (seedPeriod rules working pivot records p).days = ∅ := by
      rw [days_seedPeriod, empty]
      rfl
    rw [Period.chargesOf, Period.dayAt, Period.day?, days]
    rfl
  · rw [contains_seedPeriod, empty]
    rfl
  · refine List.eq_nil_iff_forall_not_mem.2 fun error mem => ?_
    obtain ⟨held, named⟩ := Findings.mem_errorsOf.1 mem
    rcases critical_seedPeriod held with old | ⟨link, carries, b, hb, other⟩
    · rw [empty] at old
      exact absurd old List.not_mem_nil
    · -- The error names a record of an earlier year, and the period covers none of these.
      obtain ⟨mem, -, early, -⟩ := link.mem_history.1 hb
      have same : b = record := List.inj_on_of_nodup_map distinct mem hrecord
        (Option.some.inj (other.symm.trans named))
      rw [Period.takes_congr (seedPeriod_place rules working pivot records p)] at takes
      have year := year_of_carryOver hlaid hp carries (mem_range_of_takes takes)
      rw [same] at early
      exact absurd early (Int.not_lt.2 (Int.le_of_eq year.symm))

end Chain

end Entitlement
