import Entitlement.Proofs.Chain.Concerned
import Entitlement.Proofs.Chain.Replay

/-!
Which records a chain is filled from. Only those that concern a period matter, and those of earlier
years that a carry-over source takes; so records can be left out that are neither.
-/

namespace Entitlement

open Calendar

namespace Profile

/-- The first contract of a profile begins no later than any other. -/
theorem first_le {profile : Profile} {first : Date}
    (h : (profile.contracts.map (·.first)).min? = some first) {contract : Contract}
    (mem : contract ∈ profile.contracts) : first ≤ contract.first := by
  have fold (dates : List Date) (start : Date) :
      dates.foldl min start ≤ start ∧ ∀ d ∈ dates, dates.foldl min start ≤ d := by
    induction dates generalizing start with
    | nil => exact ⟨Date.le_refl _, fun d hd => absurd hd List.not_mem_nil⟩
    | cons e rest ih =>
      obtain ⟨least, others⟩ := ih (min start e)
      refine ⟨Date.le_trans least (Date.min_le_left _ _), fun d hd => ?_⟩
      rcases List.mem_cons.1 hd with rfl | later
      · exact Date.le_trans least (Date.min_le_right _ _)
      · exact others d later
  have mem := List.mem_map_of_mem (f := Contract.first) mem
  cases dates : profile.contracts.map (·.first) with
  | nil =>
    rw [dates] at mem
    exact absurd mem List.not_mem_nil
  | cons d rest =>
    rw [dates] at h mem
    cases h
    obtain ⟨least, others⟩ := fold rest d
    rcases List.mem_cons.1 mem with same | later
    · rw [same]
      exact least
    · exact others _ later

/-- The days before a year hold every earlier date from the first contract on. -/
theorem mem_daysBefore {profile : Profile} {contract : Contract} (mem : contract ∈ profile.contracts)
    {date d : Date} (from' : contract.first ≤ d) (before : d.year < date.year) :
    ∃ range, profile.daysBefore? (DateRange.yearAround date).first = some range ∧ d ∈ range := by
  have months := d.month_le
  have days : d.day ≤ 31 := Nat.le_trans d.day_le (daysInMonth_le _ _)
  have early := d.firstYear_le
  have late := date.le_lastYear
  have parts : firstYear ≤ date.year - 1 ∧ date.year - 1 ≤ lastYear ∧ 1 ≤ 12 ∧ 12 ≤ 12 ∧ 1 ≤ 31 ∧
      31 ≤ daysInMonth (date.year - 1) 12 := by
    refine ⟨by omega, by omega, by omega, by omega, by omega, ?_⟩
    simp [daysInMonth]
  have eve : (DateRange.yearAround date).first.pred? = Date.ofParts? (date.year - 1) 12 31 := by
    simp [Date.pred?, DateRange.yearAround, Date.startOfYear]
  have least : ∃ first, (profile.contracts.map (·.first)).min? = some first := by
    cases dates : profile.contracts.map (·.first) with
    | nil =>
      have := List.mem_map_of_mem (f := Contract.first) mem
      rw [dates] at this
      exact absurd this List.not_mem_nil
    | cons e rest => exact ⟨_, rfl⟩
  obtain ⟨first, least⟩ := least
  have begun : first ≤ d := Date.le_trans (first_le least mem) from'
  simp only [daysBefore?, least, eve, Date.ofParts?, dif_pos parts, Option.bind_eq_bind,
    Option.bind_some]
  have behind : d ≤ ⟨date.year - 1, 12, 31, parts.1, parts.2.1, parts.2.2.1, parts.2.2.2.1,
      parts.2.2.2.2.1, parts.2.2.2.2.2⟩ := by
    rw [Date.le_def, Date.lt_def]
    dsimp only
    omega
  rw [if_pos (Date.le_trans begun behind)]
  exact ⟨_, rfl, begun, behind⟩

end Profile

namespace Chain

/-- Gathering some records first loses none that pass a test if all of these are gathered. -/
theorem inOrder_gathered {keep p : Absence → Bool} {records : List Absence}
    (h : ∀ a ∈ records, p a = true → keep a = true) :
    Absence.inOrder ((Absence.inOrder (records.filter keep)).filter p) =
      Absence.inOrder (records.filter p) := by
  rw [Absence.inOrder_filter, Absence.inOrder_inOrder, List.filter_filter]
  congr 1
  apply List.filter_congr
  intro a ha
  cases passes : p a with
  | false => rfl
  | true => rw [h a ha passes, Bool.and_true]

theorem seedPeriod_congr {rules : RuleTree} {working : WorkingTime} {pivot : Pivot}
    {records records' : List Absence} {p : Period}
    (h : ∀ link, carryOver? rules p = some link →
      link.history pivot.person pivot.date.year records =
        link.history pivot.person pivot.date.year records') :
    seedPeriod rules working pivot records p = seedPeriod rules working pivot records' p := by
  unfold seedPeriod
  cases carries : carryOver? rules p with
  | none => rfl
  | some link => simp only [CarryOver.replay, h link carries]

/-- Lists with the same records of concern, and the same history behind every carry-over, fill a chain
alike. -/
theorem fill_congr {rules : RuleTree} {working : WorkingTime} {pivot : Pivot} {laid : Chain}
    {records records' : List Absence}
    (same : concerned laid.periods laid.person records = concerned laid.periods laid.person records')
    (histories : ∀ p ∈ laid.periods, ∀ link, carryOver? rules p = some link →
      link.history pivot.person pivot.date.year records =
        link.history pivot.person pivot.date.year records') :
    fill rules working pivot laid records = fill rules working pivot laid records' := by
  rw [fill_concerned, fill_concerned, same,
    List.map_congr_left fun p hp => seedPeriod_congr (histories p hp)]

/-- A chain is filled alike from all records and from those gathered, if none that matters is missed. -/
theorem fill_gathered {rules : RuleTree} {working : WorkingTime} {pivot : Pivot} {laid : Chain}
    {keep : Absence → Bool} {records : List Absence}
    (concerns : ∀ a ∈ records, a.person = laid.person → ∀ p ∈ laid.periods, p.concerns a = true →
      keep a = true)
    (histories : ∀ p ∈ laid.periods, ∀ link, carryOver? rules p = some link → ∀ a ∈ records,
      a.person = pivot.person → a.date.year < pivot.date.year → link.source.takes a.code = true →
      keep a = true) :
    fill rules working pivot laid (Absence.inOrder (records.filter keep)) =
      fill rules working pivot laid records := by
  refine fill_congr (inOrder_gathered fun a ha passes => ?_) fun p hp link carries =>
    inOrder_gathered fun a ha passes => ?_
  · simp only [Bool.and_eq_true, decide_eq_true_eq, List.any_eq_true] at passes
    obtain ⟨person, q, hq, concerned⟩ := passes
    exact concerns a ha person q hq concerned
  · simp only [Bool.and_eq_true, decide_eq_true_eq] at passes
    exact histories p hp link carries a ha passes.1.1 passes.1.2 passes.2

end Chain

end Entitlement
