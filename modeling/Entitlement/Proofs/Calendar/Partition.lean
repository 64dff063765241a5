import Entitlement.Proofs.Calendar.DayNumber

/-!
Years and months part the calendar. The range around a date holds the dates of its year, or of its month, and no
others, so two of them are the same or have no date in common; the twelve months of a year follow each other day by
day from its first day to its last; and a range up to the end of a month is made up of the months so far. Only the
last month of the calendar has no range, since its end is looked for beyond it.
-/

namespace Entitlement

open Calendar

namespace Date

def lastNovember : Date :=
  (ofParts? lastYear 11 30).get (by decide)

/-- The dates up to the last November are those of the other months. -/
theorem le_lastNovember_iff {d : Date} : d ≤ lastNovember ↔ d.year < lastYear ∨ d.month < 12 := by
  obtain ⟨year, month, day⟩ : lastNovember.year = lastYear ∧ lastNovember.month = 11 ∧ lastNovember.day = 30 :=
    ofParts?_eq_some_iff.1 (Option.some_get _).symm
  have ended := d.le_lastYear
  have le := d.month_le
  have november (h : d.month = 11) : d.day ≤ 30 := by
    simpa [h, daysInMonth] using d.day_le
  rw [le_def, lt_def, year, month, day]
  omega

/-- Parts that go together make a date. -/
theorem ofParts?_of_fits (year : Int) (month day : Nat)
    (fits : firstYear ≤ year ∧ year ≤ lastYear ∧ 1 ≤ month ∧ month ≤ 12 ∧ 1 ≤ day ∧ day ≤ daysInMonth year month) :
    ∃ d, ofParts? year month day = some d :=
  ⟨_, dif_pos fits⟩

/-- Every month of the calendar has a first day. -/
theorem ofParts?_first {year : Int} {month : Nat} (begun : firstYear ≤ year) (ended : year ≤ lastYear)
    (pos : 1 ≤ month) (le : month ≤ 12) : ∃ d, ofParts? year month 1 = some d :=
  ofParts?_of_fits year month 1 ⟨begun, ended, pos, le, Nat.le_refl 1, daysInMonth_pos _ _⟩

/-- Only the first month of the calendar has none before it. -/
theorem pred?_of_later (d : Date) (h : 1 < d.month ∨ firstYear < d.year) : ∃ e, d.pred? = some e := by
  have begun := d.firstYear_le
  have ended := d.le_lastYear
  have le := d.month_le
  have day_le := d.day_le
  unfold pred?
  split
  · exact ofParts?_of_fits _ _ _ ⟨begun, ended, d.month_pos, le, by omega, by omega⟩
  · split
    · exact ofParts?_of_fits _ _ _ ⟨begun, ended, by omega, by omega, daysInMonth_pos _ _, Nat.le_refl _⟩
    · exact ofParts?_of_fits _ _ _ ⟨by omega, by omega, by decide, by decide, by decide, by simp [daysInMonth]⟩

end Date

namespace DateRange

/-- Every month but the last of the calendar has one behind it, and so a range. -/
theorem monthAround?_of_le {d : Date} (h : d ≤ Date.lastNovember) : ∃ month, monthAround? d = some month := by
  have early := Date.le_lastNovember_iff.1 h
  have begun := d.firstYear_le
  have ended := d.le_lastYear
  have pos := d.month_pos
  have le := d.month_le
  obtain ⟨first, hfirst⟩ := Date.ofParts?_first begun ended pos le
  rw [monthAround?, hfirst]
  by_cases december : d.month = 12
  · obtain ⟨next, hnext⟩ : ∃ next, Date.ofParts? (d.year + 1) 1 1 = some next :=
      Date.ofParts?_first (by omega) (by omega) (by decide) (by decide)
    have parts := Date.ofParts?_eq_some_iff.1 hnext
    obtain ⟨last, hlast⟩ := next.pred?_of_later (by omega)
    exact ⟨⟨first, last⟩, by simp [december, hnext, hlast]⟩
  · obtain ⟨next, hnext⟩ : ∃ next, Date.ofParts? d.year (d.month + 1) 1 = some next :=
      Date.ofParts?_first begun ended (by omega) (by omega)
    have parts := Date.ofParts?_eq_some_iff.1 hnext
    obtain ⟨last, hlast⟩ := next.pred?_of_later (by omega)
    exact ⟨⟨first, last⟩, by simp [december, hnext, hlast]⟩

/-- The months around two dates are the same, or have no date in common. -/
theorem months_eq_or_disjoint {d e : Date} {m n : DateRange} (hm : monthAround? d = some m)
    (hn : monthAround? e = some n) : m = n ∨ ∀ x ∈ m, x ∉ n := by
  by_cases same : d.year = e.year ∧ d.month = e.month
  · refine .inl (Option.some.inj (hm.symm.trans (Eq.trans ?_ hn)))
    rw [monthAround?, monthAround?, same.1, same.2]
  · refine .inr fun x inM inN => same ?_
    rw [mem_monthAround hm] at inM
    rw [mem_monthAround hn] at inN
    exact ⟨inM.1.symm.trans inN.1, inM.2.symm.trans inN.2⟩

/-- The years around two dates are the same, or have no date in common. -/
theorem years_eq_or_disjoint (d e : Date) : yearAround d = yearAround e ∨ ∀ x ∈ yearAround d, x ∉ yearAround e := by
  by_cases same : d.year = e.year
  · exact .inl (yearAround_congr same)
  · refine .inr fun x inD inE => same ?_
    rw [mem_yearAround] at inD inE
    exact inD.symm.trans inE

/-- The month and the year around a date hold exactly the dates of that month and that year. -/
structure Around (d : Date) (month : DateRange) : Prop where
  found : monthAround? d = some month
  mem_month (x : Date) : x ∈ month ↔ x.year = d.year ∧ x.month = d.month
  mem_year (x : Date) : x ∈ yearAround d ↔ x.year = d.year

theorem around_of_le {d : Date} (h : d ≤ Date.lastNovember) : ∃ month, Around d month := by
  obtain ⟨month, found⟩ := monthAround?_of_le h
  exact ⟨month, found, fun _ => mem_monthAround found, fun _ => mem_yearAround⟩

def month? (year : Int) (month : Nat) : Option DateRange :=
  (Date.ofParts? year month 1).bind monthAround?

structure IsMonth (range : DateRange) (year : Int) (month : Nat) : Prop where
  first : range.first.year = year ∧ range.first.month = month ∧ range.first.day = 1
  last : range.last.year = year ∧ range.last.month = month ∧ range.last.day = daysInMonth year month

variable {year : Int} {month : Nat} {range : DateRange}

theorem month?_of_year (begun : firstYear ≤ year) (early : year < lastYear) (pos : 1 ≤ month) (le : month ≤ 12) :
    ∃ range, month? year month = some range ∧ range.IsMonth year month := by
  obtain ⟨first, hfirst⟩ := Date.ofParts?_first begun (Int.le_of_lt early) pos le
  obtain ⟨rfl, rfl, -⟩ := Date.ofParts?_eq_some_iff.1 hfirst
  obtain ⟨range, found⟩ := monthAround?_of_le (Date.le_lastNovember_iff.2 (.inl early))
  obtain ⟨ends, ends'⟩ := monthAround?_ends found
  exact ⟨range, by rw [month?, hfirst, Option.bind_some, found], ends, ends'⟩

namespace IsMonth

theorem mem_iff (is : range.IsMonth year month) {d : Date} : d ∈ range ↔ d.year = year ∧ d.month = month := by
  obtain ⟨⟨fy, fm, fd⟩, ly, lm, ld⟩ := is
  have pos := d.day_pos
  have le := d.day_le
  simp only [mem_def, Date.le_def, Date.lt_def]
  constructor
  · omega
  · rintro ⟨rfl, rfl⟩
    omega

/-- The last day of a month is the day before the first of the next. -/
theorem pred?_next {next : DateRange} (is : range.IsMonth year month) (is' : next.IsMonth year (month + 1))
    (pos : 1 ≤ month) : next.first.pred? = some range.last := by
  obtain ⟨year, month, day⟩ := is'.first
  rw [Date.pred?, day, month, year, if_neg (by decide), if_pos (by omega), Nat.add_sub_cancel]
  exact Date.ofParts?_eq_some_iff.2 is.last

theorem days_eq (is : range.IsMonth year month) : range.days = daysInMonth year month := by
  obtain ⟨⟨fy, fm, fd⟩, ly, lm, ld⟩ := is
  rw [days, Date.dayNumber, Date.dayNumber, fy, fm, fd, ly, lm, ld]
  omega

end IsMonth

/-- The days of the first months of a year are those before the month behind them. -/
theorem sum_days_eq {months : Nat → DateRange} {count : Nat}
    (is : ∀ m, 1 ≤ m → m ≤ count → (months m).IsMonth year m) :
    ((List.range' 1 count).map fun m => (months m).days).sum = daysBeforeMonth year (count + 1) := by
  induction count with
  | zero => rfl
  | succ count ih =>
    have here := (is (count + 1) (by omega) (Nat.le_refl _)).days_eq
    rw [List.range'_1_concat, List.map_append, List.sum_append, ih fun m pos le => is m pos (by omega),
      List.map_singleton, List.sum_singleton, Nat.add_comm 1 count, here, daysBeforeMonth, Int.natCast_add]

theorem yearAround_days (d : Date) : (yearAround d).days = daysBeforeMonth d.year 13 := by
  have december : daysBeforeMonth d.year 13 = daysBeforeMonth d.year 12 + 31 := rfl
  have january : daysBeforeMonth d.year 1 = 0 := rfl
  simp only [days, yearAround, Date.startOfYear, Date.endOfYear, Date.dayNumber, december, january]
  omega

/-- A range up to the end of a month holds the dates of the months so far. -/
theorem throughMonth?_of_month (begun : firstYear ≤ year) (ended : year ≤ lastYear)
    (found : month? year month = some range) (is : range.IsMonth year month) (le : month ≤ 12) :
    ∃ window, throughMonth? year month = some window ∧
      ∀ d, d ∈ window ↔ d.year = year ∧ d.month ≤ month := by
  obtain ⟨first, hfirst⟩ : ∃ first, Date.ofParts? year 1 1 = some first :=
    Date.ofParts?_first begun ended (by decide) (by decide)
  obtain ⟨start, hstart, around⟩ := Option.bind_eq_some_iff.1 found
  refine ⟨⟨first, range.last⟩, by simp [throughMonth?, hfirst, hstart, around], fun d => ?_⟩
  obtain ⟨fy, fm, fd⟩ := Date.ofParts?_eq_some_iff.1 hfirst
  obtain ⟨ly, lm, ld⟩ := is.last
  have pos := d.month_pos
  have day_pos := d.day_pos
  have day_le := d.day_le
  simp only [mem_def, Date.le_def, Date.lt_def]
  constructor
  · omega
  · rintro ⟨rfl, before⟩
    by_cases same : d.month = month
    · subst same
      omega
    · omega

/-- The months of a year part it. They follow each other day by day from the first day of the year to the last,
their days add up to its days, and a range up to the end of a month is made up of the months so far. -/
structure Tiles (year : Int) (whole : DateRange) (months : Nat → DateRange) : Prop where
  year_eq : year? year = some whole
  month_eq {m : Nat} : 1 ≤ m → m ≤ 12 → month? year m = some (months m)
  first : (months 1).first = whole.first
  follows {m : Nat} : 1 ≤ m → m < 12 → (months (m + 1)).first.pred? = some (months m).last
  last : (months 12).last = whole.last
  covers {d : Date} : d ∈ whole ↔ ∃ m, 1 ≤ m ∧ m ≤ 12 ∧ d ∈ months m
  apart {m n : Nat} : 1 ≤ m → m < n → n ≤ 12 → ∀ d ∈ months m, d ∉ months n
  days : ((List.range' 1 12).map fun m => (months m).days).sum = whole.days
  window {m : Nat} : 1 ≤ m → m ≤ 12 → ∃ window, throughMonth? year m = some window ∧
    (∀ d, d ∈ window ↔ ∃ k, 1 ≤ k ∧ k ≤ m ∧ d ∈ months k) ∧ ∀ d ∈ window, d ∈ whole

theorem tiles_of_months {d : Date} {months : Nat → DateRange}
    (found : ∀ m, 1 ≤ m → m ≤ 12 → month? d.year m = some (months m))
    (is : ∀ m, 1 ≤ m → m ≤ 12 → (months m).IsMonth d.year m) : Tiles d.year (yearAround d) months where
  year_eq := year?_eq d
  month_eq := found _
  first := by
    obtain ⟨year, month, day⟩ := (is 1 (by decide) (by decide)).first
    exact Date.eq_of_parts year month day
  follows {m} pos below := (is m pos (by omega)).pred?_next (is (m + 1) (by omega) below) pos
  last := by
    obtain ⟨year, month, day⟩ := (is 12 (by decide) (by decide)).last
    exact Date.eq_of_parts year month day
  covers {e} := by
    rw [mem_yearAround]
    constructor
    · exact fun same => ⟨e.month, e.month_pos, e.month_le, (is _ e.month_pos e.month_le).mem_iff.2 ⟨same, rfl⟩⟩
    · rintro ⟨m, pos, le, mem⟩
      exact ((is m pos le).mem_iff.1 mem).1
  apart {m n} pos before le e mem mem' := by
    have here := ((is m pos (by omega)).mem_iff.1 mem).2
    have there := ((is n (by omega) le).mem_iff.1 mem').2
    omega
  days := (sum_days_eq is).trans (yearAround_days d).symm
  window {m} pos le := by
    obtain ⟨window, through, mem⟩ :=
      throughMonth?_of_month d.firstYear_le d.le_lastYear (found m pos le) (is m pos le) le
    refine ⟨window, through, fun e => ?_, fun e he => mem_yearAround.2 ((mem e).1 he).1⟩
    rw [mem]
    constructor
    · rintro ⟨same, before⟩
      have inYear : e.month ≤ 12 := e.month_le
      exact ⟨e.month, e.month_pos, before, (is _ e.month_pos inYear).mem_iff.2 ⟨same, rfl⟩⟩
    · rintro ⟨k, posK, before, inMonth⟩
      obtain ⟨same, rfl⟩ := (is k posK (by omega)).mem_iff.1 inMonth
      exact ⟨same, before⟩

/-- The ranges around two dates before the last month of the calendar hold the dates of their months and years;
they are the same or have no date in common; and the months of every year before the last part it. -/
theorem calendar_partition {d e : Date} (hd : d ≤ Date.lastNovember) (he : e ≤ Date.lastNovember) {year : Int}
    (begun : firstYear ≤ year) (early : year < lastYear) :
    (∃ m n, Around d m ∧ Around e n ∧ (m = n ∨ ∀ x ∈ m, x ∉ n) ∧
      (yearAround d = yearAround e ∨ ∀ x ∈ yearAround d, x ∉ yearAround e)) ∧
    ∃ whole months, Tiles year whole months := by
  constructor
  · obtain ⟨m, aroundD⟩ := around_of_le hd
    obtain ⟨n, aroundE⟩ := around_of_le he
    exact ⟨m, n, aroundD, aroundE, months_eq_or_disjoint aroundD.found aroundE.found, years_eq_or_disjoint d e⟩
  · obtain ⟨first, hfirst⟩ : ∃ first, Date.ofParts? year 1 1 = some first :=
      Date.ofParts?_first begun (Int.le_of_lt early) (by decide) (by decide)
    obtain ⟨rfl, -, -⟩ := Date.ofParts?_eq_some_iff.1 hfirst
    have month (m : Nat) (pos : 1 ≤ m) (le : m ≤ 12) : ∃ range, month? first.year m = some range ∧
        range.IsMonth first.year m := month?_of_year begun early pos le
    have : Nonempty DateRange := ⟨yearAround first⟩
    choose! months found is using month
    exact ⟨yearAround first, months, tiles_of_months found is⟩

/-- A leap day, and a leap year before the year 0. -/
theorem leap_years_parted : Date.sample 2024 2 29 ≤ Date.lastNovember ∧ Date.sample (-4) 12 31 ≤ Date.lastNovember ∧
    firstYear ≤ (-4 : Int) ∧ (-4 : Int) < lastYear ∧
    (∃ m n, Around (.sample 2024 2 29) m ∧ Around (.sample (-4) 12 31) n ∧ (m = n ∨ ∀ x ∈ m, x ∉ n)) ∧
      ∃ whole months, Tiles (-4) whole months := by
  have february : Date.sample 2024 2 29 ≤ Date.lastNovember := by decide
  have december : Date.sample (-4) 12 31 ≤ Date.lastNovember := by decide
  have begun : firstYear ≤ (-4 : Int) := by decide
  have early : (-4 : Int) < lastYear := by decide
  obtain ⟨⟨m, n, around, around', apart, -⟩, tiled⟩ := calendar_partition february december begun early
  exact ⟨february, december, begun, early, ⟨m, n, around, around', apart⟩, tiled⟩

end DateRange

end Entitlement
