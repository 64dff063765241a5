import Entitlement.Ordered.Basic

/-!
Dates of the proleptic Gregorian calendar from the first day of the year -262143 to the last day of
the year 262142. A date is a year, a month and a day that exist together; dates compare by year,
then month, then day, and `Date.dayNumber` counts them one by one.
-/

namespace Entitlement

namespace Calendar

def firstYear : Int := -262143

def lastYear : Int := 262142

/-- Every fourth year is a leap year, but of the full centuries only every fourth. -/
def IsLeapYear (year : Int) : Prop :=
  year % 4 = 0 ∧ (year % 100 ≠ 0 ∨ year % 400 = 0)

instance (year : Int) : Decidable (IsLeapYear year) :=
  inferInstanceAs (Decidable (_ ∧ _))

def daysInMonth (year : Int) (month : Nat) : Nat :=
  if month = 2 then (if IsLeapYear year then 29 else 28)
  else if month = 4 ∨ month = 6 ∨ month = 9 ∨ month = 11 then 30
  else 31

/-- Days of the year before the first of `month`. -/
def daysBeforeMonth (year : Int) : Nat → Nat
  | 0 => 0
  | 1 => 0
  | month + 2 => daysBeforeMonth year (month + 1) + daysInMonth year (month + 1)

/-- Days before the first of January of `year`, from a fixed origin. -/
def daysBeforeYear (year : Int) : Int :=
  365 * (year - 1) + (year - 1) / 4 - (year - 1) / 100 + (year - 1) / 400

theorem daysInMonth_pos (year : Int) (month : Nat) : 1 ≤ daysInMonth year month := by
  unfold daysInMonth
  repeat' split
  all_goals omega

theorem daysInMonth_le (year : Int) (month : Nat) : daysInMonth year month ≤ 31 := by
  unfold daysInMonth
  repeat' split
  all_goals omega

end Calendar

open Calendar

/-- A day of the calendar. -/
structure Date where
  year : Int
  month : Nat
  day : Nat
  firstYear_le : firstYear ≤ year
  le_lastYear : year ≤ lastYear
  month_pos : 1 ≤ month
  month_le : month ≤ 12
  day_pos : 1 ≤ day
  day_le : day ≤ daysInMonth year month
deriving DecidableEq

namespace Date

theorem eq_of_parts {a b : Date} (hy : a.year = b.year) (hm : a.month = b.month)
    (hd : a.day = b.day) : a = b := by
  cases a
  cases b
  simp_all

/-- Dates compare by year, then month, then day. -/
instance : LT Date where
  lt a b := a.year < b.year ∨ (a.year = b.year ∧
    (a.month < b.month ∨ (a.month = b.month ∧ a.day < b.day)))

theorem lt_def {a b : Date} : a < b ↔ a.year < b.year ∨ (a.year = b.year ∧
    (a.month < b.month ∨ (a.month = b.month ∧ a.day < b.day))) := Iff.rfl

instance : LE Date where
  le a b := ¬ b < a

theorem le_def {a b : Date} : a ≤ b ↔ ¬ b < a := Iff.rfl

instance (a b : Date) : Decidable (a < b) := inferInstanceAs (Decidable (_ ∨ _))

instance (a b : Date) : Decidable (a ≤ b) := inferInstanceAs (Decidable (¬ _))

instance : Max Date := maxOfLe

instance : Min Date := minOfLe

theorem lt_irrefl (a : Date) : ¬ a < a := by
  rw [lt_def]
  omega

theorem lt_trans {a b c : Date} (hab : a < b) (hbc : b < c) : a < c := by
  rw [lt_def] at *
  omega

theorem eq_of_not_lt {a b : Date} (hab : ¬ a < b) (hba : ¬ b < a) : a = b := by
  rw [lt_def] at hab hba
  exact eq_of_parts (by omega) (by omega) (by omega)

instance : Ordered Date where
  before a b := decide (a < b)
  irrefl a := by simpa using lt_irrefl a
  trans hab hbc := by
    simp only [decide_eq_true_eq] at *
    exact lt_trans hab hbc
  connected hab hba := by
    simp only [decide_eq_false_iff_not] at *
    exact eq_of_not_lt hab hba

/-- The date of a year, a month and a day, if the calendar has it. -/
def ofParts? (year : Int) (month day : Nat) : Option Date :=
  if h : firstYear ≤ year ∧ year ≤ lastYear ∧ 1 ≤ month ∧ month ≤ 12 ∧ 1 ≤ day ∧
      day ≤ daysInMonth year month then
    some ⟨year, month, day, h.1, h.2.1, h.2.2.1, h.2.2.2.1, h.2.2.2.2.1, h.2.2.2.2.2⟩
  else
    none

/-- The first day of the calendar. -/
def minimum : Date := ⟨firstYear, 1, 1, by decide, by decide, by decide, by decide, by decide, by decide⟩

/-- The last day of the calendar. -/
def maximum : Date := ⟨lastYear, 12, 31, by decide, by decide, by decide, by decide, by decide, by decide⟩

instance : Inhabited Date := ⟨minimum⟩

/-- The first day of the date's year. -/
def startOfYear (d : Date) : Date :=
  ⟨d.year, 1, 1, d.firstYear_le, d.le_lastYear, by decide, by decide, by decide, daysInMonth_pos _ _⟩

/-- The last day of the date's year. -/
def endOfYear (d : Date) : Date :=
  ⟨d.year, 12, 31, d.firstYear_le, d.le_lastYear, by decide, by decide, by decide, by simp [daysInMonth]⟩

/-- Consecutive dates have consecutive numbers. -/
def dayNumber (d : Date) : Int :=
  daysBeforeYear d.year + daysBeforeMonth d.year d.month + d.day

/-- The day before, unless the calendar begins here. -/
def pred? (d : Date) : Option Date :=
  if 1 < d.day then ofParts? d.year d.month (d.day - 1)
  else if 1 < d.month then ofParts? d.year (d.month - 1) (daysInMonth d.year (d.month - 1))
  else ofParts? (d.year - 1) 12 31

/-- The same day some months later, or the last day of that month if it is shorter. -/
def addMonths? (d : Date) (months : Nat) : Option Date :=
  let count := d.year * 12 + (d.month - 1 : Nat) + months
  let year := count / 12
  let month := (count % 12).toNat + 1
  ofParts? year month (min d.day (daysInMonth year month))

end Date

end Entitlement
