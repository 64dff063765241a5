import Entitlement.Proofs.Absence.Order
import Entitlement.Proofs.Chain.Filling

/-!
The replay of a carry-over, year by year. A year is replayed from the records of that year alone, so
the history that serves a later pivot replays the earlier years as an earlier pivot does, and the
replay up to a year is one step longer than the replay up to the year before.
-/

namespace Entitlement

namespace Chain

/-- The carry-over of a period has the source its category names. -/
theorem carryOver_eq_some {rules : RuleTree} {p : Period} {link : CarryOver}
    (h : carryOver? rules p = some link) : ∃ source month,
      p.category.period = .previousYear source month ∧ rules.category? source = some link.source := by
  unfold carryOver? at h
  cases period : p.category.period with
  | previousYear source month =>
    simp only [period, Option.bind_eq_some_iff, Option.ite_none_right_eq_some,
      Option.some.injEq] at h
    obtain ⟨origin, known, -, rfl⟩ := h
    exact ⟨source, month, rfl, known⟩
  | always => simp [period] at h
  | year => simp [period] at h
  | month => simp [period] at h
  | child _ _ _ => simp [period] at h

namespace CarryOver

variable (link : CarryOver)

theorem mem_years {first limit year : Int} : year ∈ years first limit ↔ first ≤ year ∧ year < limit := by
  simp only [years, List.mem_map, List.mem_range]
  constructor
  · rintro ⟨i, hi, rfl⟩
    omega
  · rintro ⟨hf, hl⟩
    exact ⟨(year - first).toNat, by omega, by omega⟩

/-- The years up to the next one end with the present one. -/
theorem years_succ {first year : Int} (h : first ≤ year) :
    years first (year + 1) = years first year ++ [year] := by
  have length : (year + 1 - first).toNat = (year - first).toNat + 1 := by omega
  have last : first + ((year - first).toNat : Int) = year := by omega
  rw [years, length, List.range_succ, List.map_append, List.map_singleton, last, years]

theorem years_self (year : Int) : years year year = [] := by
  simp [years]

/-- The records of the person that the source takes, among those before a year. -/
theorem mem_history {person : PersonId} {year : Int} {records : List Absence} {a : Absence} :
    a ∈ link.history person year records ↔
      a ∈ records ∧ a.person = person ∧ a.date.year < year ∧ link.source.takes a.code = true := by
  simp only [history, Absence.mem_inOrder, List.mem_filter, Bool.and_eq_true, decide_eq_true_eq,
    and_assoc]

/-- The history up to a year, read off the history up to a later one. -/
theorem history_filter {year later : Int} (h : year ≤ later) (person : PersonId)
    (records : List Absence) : link.history person year records =
      (link.history person later records).filter fun a => a.date.year < year := by
  unfold history
  rw [Absence.inOrder_filter, List.filter_filter]
  congr 1
  apply List.filter_congr
  intro a _
  rw [Bool.eq_iff_iff]
  simp only [Bool.and_eq_true, decide_eq_true_eq]
  constructor
  · rintro ⟨⟨same, earlier⟩, takes⟩
    exact ⟨earlier, ⟨same, Int.lt_of_lt_of_le earlier h⟩, takes⟩
  · rintro ⟨earlier, ⟨same, -⟩, takes⟩
    exact ⟨⟨same, earlier⟩, takes⟩

/-- Records that the source does not take have no part in the history. -/
theorem history_congr_filter {keep : Absence → Bool}
    (h : ∀ a, keep a = false → link.source.takes a.code = false) (person : PersonId) (year : Int)
    {records records' : List Absence} (same : records.filter keep = records'.filter keep) :
    link.history person year records = link.history person year records' := by
  have kept (l : List Absence) :
      (l.filter fun a => a.person = person && a.date.year < year && link.source.takes a.code) =
        (l.filter keep).filter
          fun a => a.person = person && a.date.year < year && link.source.takes a.code := by
    rw [List.filter_filter]
    apply List.filter_congr
    intro a _
    cases hk : keep a with
    | true => rw [Bool.and_true]
    | false => rw [h a hk, Bool.and_false, Bool.and_false]
  rw [history, history, kept records, kept records', same]

/-- A year is replayed from its own records. -/
theorem replayYear_congr {history history' : List Absence} {year : Int}
    (h : history.filter (fun a => a.date.year = year) = history'.filter fun a => a.date.year = year)
    (working : Date → Option Amount) (profile : Profile) (state : Amount × List CriticalError) :
    link.replayYear working profile history state year =
      link.replayYear working profile history' state year := by
  simp only [replayYear, h]

def firstYear (history : List Absence) (year : Int) : Int :=
  history.head?.elim year (·.date.year)

theorem firstYear_le {history : List Absence} {year : Int}
    (h : ∀ a ∈ history, a.date.year < year) : firstYear history year ≤ year := by
  cases history with
  | nil => exact Int.le_refl year
  | cons a rest => exact Int.le_of_lt (h a (by simp))

/-- The history begins in the same year for two neighbouring years, if it has begun. -/
theorem firstYear_succ {person : PersonId} {year : Int} {records : List Absence}
    (h : link.history person (year + 1) records ≠ []) :
    firstYear (link.history person (year + 1) records) (year + 1) =
      firstYear (link.history person year records) year := by
  have sorted : (link.history person (year + 1) records).Pairwise fun a b => a.notAfter b :=
    Absence.inOrder_sorted _
  have early (a : Absence) (ha : a ∈ link.history person (year + 1) records) : a.date.year ≤ year :=
    Int.lt_add_one_iff.1 (link.mem_history.1 ha).2.2.1
  rw [link.history_filter (Int.le_of_lt (Int.lt_succ year)) person records]
  cases later : link.history person (year + 1) records with
  | nil => exact absurd later h
  | cons a rest =>
    rw [later] at sorted early
    by_cases before : a.date.year < year
    · rw [List.filter_cons_of_pos (by simpa using before)]
      rfl
    · have none : (a :: rest).filter (fun b => decide (b.date.year < year)) = [] := by
        apply List.filter_eq_nil_iff.2
        intro b hb
        have same : a.date.year ≤ b.date.year := by
          rcases List.mem_cons.1 hb with rfl | hb
          · exact Int.le_refl _
          · exact Date.year_le_of_le (Absence.date_le_of_notAfter (List.rel_of_pairwise_cons sorted hb))
        simp only [decide_eq_true_eq]
        omega
      have first := early a (by simp)
      rw [none]
      exact Int.le_antisymm first (Int.not_lt.1 before)

/-- What is carried into the next year is what the present year leaves, replayed from what was carried
into it. -/
theorem replay_succ (working : WorkingTime) (person : PersonId) (profile : Profile) (year : Int)
    {records : List Absence} (h : link.history person (year + 1) records ≠ []) :
    link.replay working person profile (year + 1) records =
      link.replayYear (working person) profile (link.history person (year + 1) records)
        (link.replay working person profile year records) year := by
  have begun := link.firstYear_succ h
  have bound : firstYear (link.history person year records) year ≤ year := firstYear_le
    fun a ha => (link.mem_history.1 ha).2.2.1
  have earlier (state : Amount × List CriticalError) (y : Int)
      (hy : y ∈ years (firstYear (link.history person year records) year) year) :
      link.replayYear (working person) profile (link.history person (year + 1) records) state y =
        link.replayYear (working person) profile (link.history person year records) state y := by
    refine link.replayYear_congr ?_ _ _ _
    rw [link.history_filter (Int.le_of_lt (Int.lt_succ year)) person records, List.filter_filter]
    apply List.filter_congr
    intro a _
    have := (mem_years.1 hy).2
    rw [Bool.eq_iff_iff]
    simp only [Bool.and_eq_true, decide_eq_true_eq]
    omega
  show (years (firstYear _ _) _).foldl _ (fullGrant link.source (firstYear _ _ - 1) profile, []) = _
  rw [begun, years_succ bound, List.foldl_append, List.foldl_cons, List.foldl_nil]
  congr 1
  exact List.foldl_ext _ _ _ fun state y hy => earlier state y hy

end CarryOver

end Chain

end Entitlement
