import Entitlement.Proofs.Calendar.Windows
import Entitlement.Proofs.Chain.Offers

/-!
The days of a period while records are brought in. A period is seen from outside through its terms,
its totals, its findings and what stands on each date; the replacing records are kept apart from the
rest of this outline, since a repair changes nothing else. A day exists only where something stands.
-/

namespace Entitlement

namespace Period

theorem dayAt_onDay (p : Period) (date : Date) (change : PeriodDay → PeriodDay) (d : Date) :
    (p.onDay date change).dayAt d = if d = date then change (p.dayAt date) else p.dayAt d := by
  simp only [dayAt, day?, onDay, OrderedMap.get?_insert]
  split
  · rfl
  · rfl

theorem day?_onDay (p : Period) (date : Date) (change : PeriodDay → PeriodDay) (d : Date) :
    (p.onDay date change).day? d = if d = date then some (change (p.dayAt date)) else p.day? d := by
  simp only [day?, onDay, OrderedMap.get?_insert]

theorem dayAt_of_days {p q : Period} (days : p.days = q.days)
    (initialization : p.initialization = q.initialization) : p.dayAt = q.dayAt := by
  funext d
  simp only [dayAt, day?, isPrior, days, initialization]

theorem dayAt_of_day? {p : Period} {d : Date} {day : PeriodDay} (h : p.day? d = some day) :
    p.dayAt d = day := by
  rw [dayAt, h, Option.getD_some]

theorem dayAt_of_none {p : Period} {d : Date} (h : p.day? d = none) :
    p.dayAt d = .blank d (p.isPrior d) := by
  rw [dayAt, h, Option.getD_none]

def counted (p : Period) (c : Charge) : Period :=
  if c.beforeInitialization then p.flag c
  else { p.flag c with taken := (p.flag c).taken + c.amount }

theorem charge_eq (p : Period) (c : Charge) : p.charge c =
    (p.counted c).onDay c.absence.date fun day => { day with charges := day.charges ++ [c] } :=
  rfl

theorem charge_findings (p : Period) (c : Charge) : (p.charge c).findings = (p.flag c).findings := by
  unfold charge
  split <;> rfl

theorem isCompromisedOn_compromise {p : Period} {d : Date} {error : CriticalError} :
    (p.compromise error).isCompromisedOn d = true ↔
      p.isCompromisedOn d = true ∨ error.date ≤ d := by
  cases start : p.compromisedFrom with
  | none => simp [isCompromisedOn, compromise, start]
  | some start' => simp [isCompromisedOn, compromise, start, Date.min_le_iff]

theorem isCompromisedOn_charge (p : Period) (c : Charge) (d : Date) :
    (p.charge c).isCompromisedOn d = p.isCompromisedOn d := by
  unfold isCompromisedOn charge flag
  split <;> split <;> rfl

theorem days_flag (p : Period) (c : Charge) : (p.flag c).days = p.days := by
  unfold flag
  split <;> rfl

theorem days_counted (p : Period) (c : Charge) : (p.counted c).days = p.days := by
  unfold counted
  split
  · exact days_flag p c
  · exact days_flag p c

theorem terms_counted (p : Period) (c : Charge) : (p.counted c).terms = p.terms := by
  unfold counted
  split
  · exact terms_flag p c
  · exact terms_flag p c

theorem initialization_of_terms {p q : Period} (h : p.terms = q.terms) :
    p.initialization = q.initialization :=
  (terms_eq_iff.1 h).2.2.2

theorem isPrior_of_terms {p q : Period} (h : p.terms = q.terms) (d : Date) :
    p.isPrior d = q.isPrior d := by
  rw [isPrior, isPrior, initialization_of_terms h]

theorem dayAt_counted (p : Period) (c : Charge) : (p.counted c).dayAt = p.dayAt :=
  dayAt_of_days (days_counted p c) (initialization_of_terms (terms_counted p c))

theorem dayAt_charge (p : Period) (c : Charge) (d : Date) : (p.charge c).dayAt d =
    if d = c.absence.date then { p.dayAt d with charges := (p.dayAt d).charges ++ [c] }
    else p.dayAt d := by
  rw [charge_eq, dayAt_onDay, dayAt_counted]
  split
  · next h => rw [h]
  · rfl

theorem dayAt_addCompletion (p : Period) (record : Absence) (amount : Amount) (d : Date) :
    (p.addCompletion record amount).dayAt d = if d = record.date then
      { p.dayAt d with completions := (p.dayAt d).completions ++ [(record, amount)] }
    else p.dayAt d := by
  rw [addCompletion, dayAt_onDay]
  split
  · next h => rw [h]
  · rfl

theorem dayAt_addReplacing (p : Period) (record : Absence) (d : Date) :
    (p.addReplacing record).dayAt d = if d = record.date then
      { p.dayAt d with replacings := (p.dayAt d).replacings ++ [record] } else p.dayAt d := by
  rw [addReplacing, dayAt_onDay]
  split
  · next h => rw [h]
  · rfl

theorem charges_addCompletion (p : Period) (record : Absence) (amount : Amount) (d : Date) :
    ((p.addCompletion record amount).dayAt d).charges = (p.dayAt d).charges := by
  rw [dayAt_addCompletion]
  split <;> rfl

theorem charges_addReplacing (p : Period) (record : Absence) (d : Date) :
    ((p.addReplacing record).dayAt d).charges = (p.dayAt d).charges := by
  rw [dayAt_addReplacing]
  split <;> rfl

structure Outline where
  terms : Category × DateRange × Amount × Option Initialization
  taken : Amount
  compromisedFrom : Option Date
  findings : Findings
  charges : Date → List Charge
  completions : Date → List (Absence × Amount)

def outline (p : Period) : Outline where
  terms := p.terms
  taken := p.taken
  compromisedFrom := p.compromisedFrom
  findings := p.findings
  charges d := (p.dayAt d).charges
  completions d := (p.dayAt d).completions

theorem outline_eq_iff {p q : Period} : p.outline = q.outline ↔ p.terms = q.terms ∧
    p.taken = q.taken ∧ p.compromisedFrom = q.compromisedFrom ∧ p.findings = q.findings ∧
    (∀ d, (p.dayAt d).charges = (q.dayAt d).charges) ∧
    ∀ d, (p.dayAt d).completions = (q.dayAt d).completions := by
  simp [outline, funext_iff]

private theorem flag_findings {p q : Period} (h : p.findings = q.findings) (c : Charge) :
    (p.flag c).findings = (q.flag c).findings := by
  unfold flag
  split
  · exact h
  · simp only [h]

private theorem flag_compromisedFrom (p : Period) (c : Charge) :
    (p.flag c).compromisedFrom = p.compromisedFrom := by
  unfold flag
  split <;> rfl

private theorem counted_outline {p q : Period} (h : p.outline = q.outline) (c : Charge) :
    (p.counted c).outline = (q.counted c).outline := by
  obtain ⟨terms, taken, compromised, findings, charges, completions⟩ := outline_eq_iff.1 h
  refine outline_eq_iff.2 ⟨?_, ?_, ?_, ?_, ?_, ?_⟩
  · rw [terms_counted, terms_counted, terms]
  · unfold counted
    split
    · rw [taken_flag, taken_flag, taken]
    · simp only [taken_flag, taken]
  · unfold counted
    split
    · rw [flag_compromisedFrom, flag_compromisedFrom, compromised]
    · simp only [flag_compromisedFrom, compromised]
  · unfold counted
    split
    · exact flag_findings findings c
    · exact flag_findings findings c
  · simpa only [dayAt_counted] using charges
  · simpa only [dayAt_counted] using completions

/-- The outline is respected: periods of one outline keep one outline. -/
theorem outline_respected : Chain.Respected fun p q : Period => p.outline = q.outline where
  terms h := (outline_eq_iff.1 h).1
  taken h := (outline_eq_iff.1 h).2.1
  charge := by
    intro p q c h
    obtain ⟨-, taken, compromised, findings, -⟩ := outline_eq_iff.1 (counted_outline h c)
    obtain ⟨terms, -, -, -, charges, completions⟩ := outline_eq_iff.1 h
    refine outline_eq_iff.2 ⟨by simpa using terms, taken, compromised, findings, fun d => ?_,
      fun d => ?_⟩
    · rw [dayAt_charge, dayAt_charge]
      split
      · exact congrArg (· ++ [c]) (charges d)
      · exact charges d
    · rw [dayAt_charge, dayAt_charge]
      split
      · exact completions d
      · exact completions d
  compromise := by
    intro p q error h
    obtain ⟨terms, taken, compromised, findings, charges, completions⟩ := outline_eq_iff.1 h
    refine outline_eq_iff.2 ⟨terms, taken, ?_, ?_, charges, completions⟩
    · simp only [compromise, compromised]
    · simp only [compromise, findings]
  addCompletion := by
    intro p q record amount h
    obtain ⟨terms, taken, compromised, findings, charges, completions⟩ := outline_eq_iff.1 h
    refine outline_eq_iff.2 ⟨terms, taken, compromised, findings, fun d => ?_, fun d => ?_⟩
    · rw [charges_addCompletion, charges_addCompletion, charges]
    · rw [dayAt_addCompletion, dayAt_addCompletion]
      split
      · exact congrArg (· ++ [(record, amount)]) (completions d)
      · exact completions d
  addReplacing := by
    intro p q record h
    obtain ⟨terms, taken, compromised, findings, charges, completions⟩ := outline_eq_iff.1 h
    refine outline_eq_iff.2 ⟨terms, taken, compromised, findings, fun d => ?_, fun d => ?_⟩
    · rw [charges_addReplacing, charges_addReplacing, charges]
    · rw [dayAt_addReplacing, dayAt_addReplacing]
      split
      · exact completions d
      · exact completions d

/-- A replacing record leaves no trace in the outline. -/
theorem outline_addReplacing (p : Period) (record : Absence) :
    (p.addReplacing record).outline = p.outline := by
  refine outline_eq_iff.2 ⟨rfl, rfl, rfl, rfl, charges_addReplacing p record, fun d => ?_⟩
  rw [dayAt_addReplacing]
  split <;> rfl

/-- A period whose days have not been settled: on each date stands what was brought in and nothing
else, a day exists only where something stands, and only inside the range. -/
structure Tidy (p : Period) : Prop where
  bare (d : Date) : p.dayAt d = { PeriodDay.blank d (p.isPrior d) with
    charges := (p.dayAt d).charges
    completions := (p.dayAt d).completions
    replacings := (p.dayAt d).replacings }
  used {d : Date} {day : PeriodDay} : p.day? d = some day →
    ¬ (day.charges = [] ∧ day.completions = [] ∧ day.replacings = [])
  within {d : Date} {day : PeriodDay} : p.day? d = some day → d ∈ p.range

theorem tidy_of_days {p q : Period} (h : p.Tidy) (days : q.days = p.days) (terms : q.terms = p.terms) :
    q.Tidy where
  bare d := by
    rw [dayAt_of_days days (initialization_of_terms terms), isPrior_of_terms terms]
    exact h.bare d
  used {d day} hd := by
    rw [day?, days] at hd
    exact h.used hd
  within {d day} hd := by
    rw [day?, days] at hd
    rw [(terms_eq_iff.1 terms).2.1]
    exact h.within hd

/-- A period stays tidy when something is put on a day of its range. -/
theorem tidy_onDay {p : Period} (h : p.Tidy) {date : Date} (inside : date ∈ p.range)
    {change : PeriodDay → PeriodDay}
    (keeps : ∀ day, change day = { day with
      charges := (change day).charges
      completions := (change day).completions
      replacings := (change day).replacings })
    (puts : ∀ day, ¬ ((change day).charges = [] ∧ (change day).completions = [] ∧
      (change day).replacings = [])) : (p.onDay date change).Tidy where
  bare d := by
    have prior : (p.onDay date change).isPrior d = p.isPrior d := rfl
    rw [dayAt_onDay, prior]
    split
    · next same =>
      rw [keeps, h.bare date, same]
    · exact h.bare d
  used {d day} hd := by
    rw [day?_onDay] at hd
    split at hd
    · cases hd
      exact puts _
    · exact h.used hd
  within {d day} hd := by
    rw [day?_onDay] at hd
    split at hd
    · next same => exact same ▸ inside
    · exact h.within hd

theorem tidy_charge {p : Period} (h : p.Tidy) {c : Charge} (inside : c.absence.date ∈ p.range) :
    (p.charge c).Tidy := by
  rw [charge_eq]
  refine tidy_onDay (tidy_of_days h (days_counted p c) (terms_counted p c)) ?_ (fun _ => rfl) ?_
  · rwa [(terms_eq_iff.1 (terms_counted p c)).2.1]
  · simp

theorem tidy_addCompletion {p : Period} (h : p.Tidy) {record : Absence}
    (inside : record.date ∈ p.range) (amount : Amount) : (p.addCompletion record amount).Tidy :=
  tidy_onDay h inside (fun _ => rfl) (by simp)

theorem tidy_addReplacing {p : Period} (h : p.Tidy) {record : Absence}
    (inside : record.date ∈ p.range) : (p.addReplacing record).Tidy :=
  tidy_onDay h inside (fun _ => rfl) (by simp)

/-- A period without days is tidy. -/
theorem tidy_of_empty {p : Period} (h : p.days = ∅) : p.Tidy where
  bare d := by
    rw [dayAt, day?, h]
    rfl
  used {d day} hd := by simp [day?, h] at hd
  within {d day} hd := by simp [day?, h] at hd

/-- On a date without a day nothing stands. -/
theorem Tidy.day?_eq {p : Period} (h : p.Tidy) (d : Date) : p.day? d =
    if (p.dayAt d).charges = [] ∧ (p.dayAt d).completions = [] ∧ (p.dayAt d).replacings = [] then none
    else some (p.dayAt d) := by
  cases found : p.day? d with
  | none =>
    rw [dayAt_of_none found]
    rfl
  | some day =>
    rw [dayAt_of_day? found, if_neg (h.used found)]

end Period

end Entitlement
