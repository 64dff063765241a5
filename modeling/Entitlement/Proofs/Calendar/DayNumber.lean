import Mathlib.Data.Int.Interval
import Mathlib.Order.ConditionallyCompleteLattice.Basic
import Mathlib.Data.Int.ConditionallyCompleteOrder
import Entitlement.Proofs.Calendar.Windows

/-!
Dates by number. Numbers ascend with the dates, so the days of a range can be counted as numbers; ranges inside
another that share no date have together no more days than it.
-/

namespace Entitlement

namespace Calendar

/-- The days before a month are fewer than those before a later one by at least its own. -/
theorem daysBeforeMonth_add_le (year : Int) {m n : Nat} (pos : 1 ≤ m) (later : m < n) :
    daysBeforeMonth year m + daysInMonth year m ≤ daysBeforeMonth year n := by
  have step (k : Nat) (hk : 1 ≤ k) :
      daysBeforeMonth year (k + 1) = daysBeforeMonth year k + daysInMonth year k := by
    cases k with
    | zero => omega
    | succ k => rfl
  induction n, later using Nat.le_induction with
  | base => exact Nat.le_of_eq (step m pos).symm
  | succ n later ih =>
    rw [step n (by omega)]
    omega

/-- Twelve months make a year. -/
theorem daysBeforeYear_succ (year : Int) :
    daysBeforeYear (year + 1) = daysBeforeYear year + daysBeforeMonth year 13 := by
  have december : daysBeforeMonth year 13 = if IsLeapYear year then 366 else 365 := by
    by_cases leap : IsLeapYear year
    · simp [daysBeforeMonth, daysInMonth, leap]
    · simp [daysBeforeMonth, daysInMonth, leap]
  rw [december, daysBeforeYear, daysBeforeYear]
  split
  · next leap =>
    unfold IsLeapYear at leap
    omega
  · next common =>
    unfold IsLeapYear at common
    omega

theorem daysBeforeYear_mono {year later : Int} (h : year ≤ later) :
    daysBeforeYear year ≤ daysBeforeYear later := by
  unfold daysBeforeYear
  omega

end Calendar

open Calendar

namespace Date

/-- The days from the beginning of a year to a date are at most those of the year. -/
theorem dayNumber_le_year (d : Date) : d.dayNumber ≤ daysBeforeYear (d.year + 1) := by
  have inYear : d.month < 13 := Nat.lt_add_one_of_le d.month_le
  have months := daysBeforeMonth_add_le d.year d.month_pos inYear
  have day := d.day_le
  rw [daysBeforeYear_succ, dayNumber]
  omega

theorem lt_dayNumber (d : Date) : daysBeforeYear d.year < d.dayNumber := by
  have day := d.day_pos
  rw [dayNumber]
  omega

/-- A later date has a greater number. -/
theorem dayNumber_lt {a b : Date} (h : a < b) : a.dayNumber < b.dayNumber := by
  rcases lt_def.1 h with year | ⟨year, month | ⟨month, day⟩⟩
  · calc a.dayNumber ≤ daysBeforeYear (a.year + 1) := a.dayNumber_le_year
      _ ≤ daysBeforeYear b.year := daysBeforeYear_mono year
      _ < b.dayNumber := b.lt_dayNumber
  · have months := daysBeforeMonth_add_le a.year a.month_pos month
    have last := a.day_le
    have first := b.day_pos
    rw [dayNumber, dayNumber, ← year]
    omega
  · rw [dayNumber, dayNumber, ← year, ← month]
    omega

theorem dayNumber_le_iff {a b : Date} : a.dayNumber ≤ b.dayNumber ↔ a ≤ b := by
  constructor
  · intro number later
    exact Int.not_lt.2 number (dayNumber_lt later)
  · intro h
    by_cases same : a = b
    · rw [same]
    · exact Int.le_of_lt (dayNumber_lt (Decidable.of_not_not fun not =>
        same (le_antisymm h not)))

end Date

namespace DateRange

noncomputable def numbers (range : DateRange) : Finset Int :=
  Finset.Icc range.first.dayNumber range.last.dayNumber

theorem card_numbers (range : DateRange) : (range.numbers.card : Int) = max range.days 0 := by
  rw [numbers, Int.card_Icc, Int.toNat_eq_max, days]
  omega

/-- Ranges without a common date have no number in common. -/
theorem disjoint_numbers {a b : DateRange} (apart : ∀ d ∈ a, d ∉ b) : Disjoint a.numbers b.numbers := by
  refine Finset.disjoint_left.2 fun n inA inB => ?_
  obtain ⟨afterA, beforeA⟩ := Finset.mem_Icc.1 inA
  obtain ⟨afterB, beforeB⟩ := Finset.mem_Icc.1 inB
  rcases Date.le_total a.first b.first with h | h
  · exact apart b.first ⟨h, Date.dayNumber_le_iff.1 (afterB.trans beforeA)⟩
      ⟨Date.le_refl _, Date.dayNumber_le_iff.1 (afterB.trans beforeB)⟩
  · exact apart a.first ⟨Date.le_refl _, Date.dayNumber_le_iff.1 (afterA.trans beforeA)⟩
      ⟨h, Date.dayNumber_le_iff.1 (afterA.trans beforeB)⟩

def Within (a b : DateRange) : Prop :=
  a.first ∈ b ∧ a.last ∈ b

instance (a b : DateRange) : Decidable (a.Within b) :=
  inferInstanceAs (Decidable (_ ∧ _))

theorem Within.numbers_subset {a b : DateRange} (within : a.Within b) : a.numbers ⊆ b.numbers :=
  Finset.Icc_subset_Icc (Date.dayNumber_le_iff.2 within.1.1) (Date.dayNumber_le_iff.2 within.2.2)

/-- Ranges without common dates have together at most the days of a range around them. -/
theorem sum_days_le {natural : DateRange} {slices : List DateRange}
    (within : ∀ r ∈ slices, r.Within natural) (apart : slices.Pairwise fun a b => ∀ d ∈ a, d ∉ b) :
    (slices.map fun r => max r.days 0).sum ≤ max natural.days 0 := by
  have counted {s : Finset Int} (l : List DateRange) (inside : ∀ r ∈ l, r.numbers ⊆ s)
      (apart : l.Pairwise fun a b => Disjoint a.numbers b.numbers) :
      (l.map fun r => max r.days 0).sum ≤ (s.card : Int) := by
    induction l generalizing s with
    | nil => exact Int.natCast_nonneg _
    | cons r rest ih =>
      obtain ⟨here, inside⟩ := List.forall_mem_cons.1 inside
      obtain ⟨first, apart⟩ := List.pairwise_cons.1 apart
      have left := ih (s := s \ r.numbers)
        (fun r' hr' => Finset.subset_sdiff.2 ⟨inside r' hr', (first r' hr').symm⟩) apart
      have card := Finset.card_sdiff_add_card_eq_card here
      rw [List.map_cons, List.sum_cons, ← card_numbers r]
      omega
  rw [← card_numbers natural]
  exact counted slices (fun r hr => (within r hr).numbers_subset)
    (apart.imp fun apart => disjoint_numbers apart)

/-- The calendar has fewer than 2^33 days. -/
theorem Within.days_bounds {a b : DateRange} (within : a.Within b) :
    0 < b.days ∧ a.days ≤ b.days ∧ - b.days < a.days ∧ b.days < 0x200000000 := by
  have first := Date.dayNumber_le_iff.2 within.1.1
  have first' := Date.dayNumber_le_iff.2 within.1.2
  have last := Date.dayNumber_le_iff.2 within.2.1
  have last' := Date.dayNumber_le_iff.2 within.2.2
  have low := b.first.lt_dayNumber
  have high := b.last.dayNumber_le_year
  have early := daysBeforeYear_mono b.first.firstYear_le
  have late := daysBeforeYear_mono (Int.add_le_add_right b.last.le_lastYear 1)
  have span : daysBeforeYear (lastYear + 1) - daysBeforeYear firstYear = 191491529 := by decide
  unfold days
  omega

end DateRange

end Entitlement
