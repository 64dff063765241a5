import Entitlement.Person
import Entitlement.Proofs.Absence.Order

/-!
Which dates the ranges of the calendar hold: an intersection holds the common dates, a year the dates
of the year, a month those of the month. A range up to the end of a month stays in its year.
-/

namespace Entitlement

open Calendar

namespace Date

theorem max_le_iff {a b c : Date} : max a b ≤ c ↔ a ≤ c ∧ b ≤ c := by
  show (if a ≤ b then b else a) ≤ c ↔ _
  split
  · next h => exact ⟨fun hb => ⟨le_trans h hb, hb⟩, fun h => h.2⟩
  · next h => exact ⟨fun ha => ⟨ha, le_trans (le_of_lt (lt_of_not_le h)) ha⟩, fun h => h.1⟩

theorem le_min_iff {a b c : Date} : c ≤ min a b ↔ c ≤ a ∧ c ≤ b := by
  show c ≤ (if a ≤ b then a else b) ↔ _
  split
  · next h => exact ⟨fun ha => ⟨ha, le_trans ha h⟩, fun h => h.1⟩
  · next h => exact ⟨fun hb => ⟨le_trans hb (le_of_lt (lt_of_not_le h)), hb⟩, fun h => h.2⟩

theorem min_le_left (a b : Date) : min a b ≤ a :=
  (le_min_iff.1 (le_refl _)).1

theorem min_le_right (a b : Date) : min a b ≤ b :=
  (le_min_iff.1 (le_refl _)).2

theorem min_le_iff {a b c : Date} : min a b ≤ c ↔ a ≤ c ∨ b ≤ c := by
  constructor
  · show (if a ≤ b then a else b) ≤ c → _
    split
    · exact .inl
    · exact .inr
  · rintro (h | h)
    · exact le_trans (min_le_left a b) h
    · exact le_trans (min_le_right a b) h

theorem le_max_left (a b : Date) : a ≤ max a b :=
  (max_le_iff.1 (le_refl _)).1

theorem le_max_right (a b : Date) : b ≤ max a b :=
  (max_le_iff.1 (le_refl _)).2

/-- The calendar has a date exactly when its parts exist together. -/
theorem ofParts?_eq_some_iff {year : Int} {month day : Nat} {d : Date} :
    ofParts? year month day = some d ↔ d.year = year ∧ d.month = month ∧ d.day = day := by
  unfold ofParts?
  split
  · constructor
    · rintro ⟨⟩
      exact ⟨rfl, rfl, rfl⟩
    · rintro ⟨rfl, rfl, rfl⟩
      rfl
  · next h =>
    constructor
    · exact fun e => absurd e (by simp)
    · rintro ⟨rfl, rfl, rfl⟩
      exact absurd ⟨d.firstYear_le, d.le_lastYear, d.month_pos, d.month_le, d.day_pos, d.day_le⟩ h

/-- The date with the given parts, for examples; the end of the calendar stands in for one that does
not exist. -/
def sample (year : Int) (month day : Nat) : Date :=
  (ofParts? year month day).getD maximum

/-- No date lies behind the end of the calendar. -/
theorem le_maximum (d : Date) : d ≤ maximum := by
  have year := d.le_lastYear
  have month := d.month_le
  have day : d.day ≤ 31 := Nat.le_trans d.day_le (daysInMonth_le _ _)
  rw [le_def, lt_def]
  simp only [maximum]
  omega

end Date

/-- A contract contains exactly the dates of its range. -/
theorem Contract.contains_iff {contract : Contract} {d : Date} :
    contract.contains d = true ↔ d ∈ contract.range := by
  cases contract with
  | mk first last =>
    cases last with
    | none => simp [contains, range, DateRange.mem_def, Date.le_maximum]
    | some last => simp [contains, range, DateRange.mem_def]

namespace DateRange

theorem contains_iff {range : DateRange} {d : Date} : range.contains d = true ↔ d ∈ range := by
  simp [contains]

theorem mem_of_intersect {a b c : DateRange} (h : a.intersect b = some c) (d : Date) :
    d ∈ c ↔ d ∈ a ∧ d ∈ b := by
  simp only [intersect, Option.ite_none_right_eq_some, Option.some.injEq] at h
  obtain ⟨-, rfl⟩ := h
  simp only [mem_def, Date.max_le_iff, Date.le_min_iff]
  exact ⟨fun ⟨⟨haf, hbf⟩, hal, hbl⟩ => ⟨⟨haf, hal⟩, hbf, hbl⟩,
    fun ⟨⟨haf, hal⟩, hbf, hbl⟩ => ⟨⟨haf, hbf⟩, hal, hbl⟩⟩

/-- Ranges that share a date have an intersection. -/
theorem intersect_of_mem {a b : DateRange} {d : Date} (ha : d ∈ a) (hb : d ∈ b) :
    ∃ c, a.intersect b = some c := by
  have first : max a.first b.first ≤ d := Date.max_le_iff.2 ⟨ha.1, hb.1⟩
  have last : d ≤ min a.last b.last := Date.le_min_iff.2 ⟨ha.2, hb.2⟩
  exact ⟨_, if_pos (Date.le_trans first last)⟩

theorem mem_span_left {a b : DateRange} {d : Date} (h : d ∈ a) : d ∈ a.span b :=
  ⟨Date.le_trans (Date.min_le_left _ _) h.1, Date.le_trans h.2 (Date.le_max_left _ _)⟩

theorem mem_span_right {a b : DateRange} {d : Date} (h : d ∈ b) : d ∈ a.span b :=
  ⟨Date.le_trans (Date.min_le_right _ _) h.1, Date.le_trans h.2 (Date.le_max_right _ _)⟩

/-- A year holds exactly the dates of the year. -/
theorem mem_yearAround {d e : Date} : d ∈ yearAround e ↔ d.year = e.year := by
  have dm := d.month_pos
  have dm' := d.month_le
  have dd := d.day_pos
  have dd' : d.day ≤ 31 := Nat.le_trans d.day_le (daysInMonth_le _ _)
  simp only [mem_def, yearAround, Date.startOfYear, Date.endOfYear, Date.le_def, Date.lt_def]
  omega

theorem yearAround_congr {d e : Date} (h : d.year = e.year) : yearAround d = yearAround e := by
  unfold yearAround
  congr 1 <;> exact Date.eq_of_parts h rfl rfl

/-- Every year with a date is a year of the calendar. -/
theorem year?_eq (d : Date) : year? d.year = some (yearAround d) := by
  have first : Date.ofParts? d.year 1 1 = some (yearAround d).first :=
    Date.ofParts?_eq_some_iff.2 ⟨rfl, rfl, rfl⟩
  rw [year?, first, Option.map_some]
  rfl

/-- The month around a date runs from its first to its last day. -/
theorem monthAround?_ends {e : Date} {range : DateRange} (h : monthAround? e = some range) :
    (range.first.year = e.year ∧ range.first.month = e.month ∧ range.first.day = 1) ∧
      range.last.year = e.year ∧ range.last.month = e.month ∧
        range.last.day = daysInMonth e.year e.month := by
  have pos := e.month_pos
  simp only [monthAround?, Option.bind_eq_bind, Option.bind_eq_some_iff, Option.pure_def] at h
  obtain ⟨first, hfirst, h⟩ := h
  have hfirst := Date.ofParts?_eq_some_iff.1 hfirst
  split at h
  · next december =>
    simp only [Option.bind_eq_some_iff, Option.some.injEq] at h
    obtain ⟨next, hnext, last, hlast, rfl⟩ := h
    obtain ⟨ny, nm, nd⟩ := Date.ofParts?_eq_some_iff.1 hnext
    rw [Date.pred?, nd, nm, if_neg (by omega), if_neg (by omega)] at hlast
    obtain ⟨ly, lm, ld⟩ := Date.ofParts?_eq_some_iff.1 hlast
    exact ⟨hfirst, ly.trans (by omega), lm.trans december.symm,
      ld.trans (by simp [december, daysInMonth])⟩
  · simp only [Option.bind_eq_some_iff, Option.some.injEq] at h
    obtain ⟨next, hnext, last, hlast, rfl⟩ := h
    obtain ⟨ny, nm, nd⟩ := Date.ofParts?_eq_some_iff.1 hnext
    rw [Date.pred?, nd, nm, ny, if_neg (by omega), if_pos (by omega), Nat.add_sub_cancel] at hlast
    obtain ⟨ly, lm, ld⟩ := Date.ofParts?_eq_some_iff.1 hlast
    exact ⟨hfirst, ly, lm, ld⟩

/-- The month around a date holds exactly the dates of that month. -/
theorem mem_monthAround {d e : Date} {range : DateRange} (h : monthAround? e = some range) :
    d ∈ range ↔ d.year = e.year ∧ d.month = e.month := by
  obtain ⟨⟨fy, fm, fd⟩, ly, lm, ld⟩ := monthAround?_ends h
  have pos := d.day_pos
  have le := d.day_le
  simp only [mem_def, Date.le_def, Date.lt_def]
  constructor
  · omega
  · rintro ⟨hy, hm⟩
    rw [hy, hm] at le
    omega

/-- A range from January to the end of a month stays in its year. -/
theorem year_of_mem_throughMonth {year : Int} {month : Nat} {range : DateRange} {d : Date}
    (h : throughMonth? year month = some range) (hd : d ∈ range) : d.year = year := by
  simp only [throughMonth?, Option.bind_eq_bind, Option.bind_eq_some_iff, Option.pure_def,
    Option.some.injEq] at h
  obtain ⟨first, hfirst, start, hstart, ending, hending, rfl⟩ := h
  have first := Date.year_le_of_le hd.1
  have last := Date.year_le_of_le hd.2
  rw [(Date.ofParts?_eq_some_iff.1 hfirst).1] at first
  rw [(monthAround?_ends hending).2.1, (Date.ofParts?_eq_some_iff.1 hstart).1] at last
  omega

end DateRange

end Entitlement
