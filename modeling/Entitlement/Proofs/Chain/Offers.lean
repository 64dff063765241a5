import Mathlib.Data.List.Forall2
import Entitlement.Chain.Build

/-!
What bringing a record into the periods of a chain depends on. A period keeps its terms, and an offer
is decided by the terms and the running totals alone, so every relation that respects these is carried
from the periods before a record to the periods after it.
-/

namespace Entitlement

namespace Period

/-- What never changes while records are charged: the category, the range, the limit and the
initialization of a period. -/
def terms (period : Period) : Category × DateRange × Amount × Option Initialization :=
  (period.category, period.range, period.limit, period.initialization)

theorem terms_eq_iff {p q : Period} : p.terms = q.terms ↔ p.category = q.category ∧
    p.range = q.range ∧ p.limit = q.limit ∧ p.initialization = q.initialization := by
  simp [terms]

@[simp] theorem terms_onDay (p : Period) (date : Date) (change : PeriodDay → PeriodDay) :
    (p.onDay date change).terms = p.terms := rfl

@[simp] theorem terms_flag (p : Period) (c : Charge) : (p.flag c).terms = p.terms := by
  unfold flag
  split <;> rfl

theorem taken_flag (p : Period) (c : Charge) : (p.flag c).taken = p.taken := by
  unfold flag
  split <;> rfl

@[simp] theorem terms_charge (p : Period) (c : Charge) : (p.charge c).terms = p.terms := by
  unfold charge
  split
  · exact terms_flag p c
  · exact terms_flag p c

theorem taken_charge (p : Period) (c : Charge) :
    (p.charge c).taken = if c.beforeInitialization then p.taken else p.taken + c.amount := by
  unfold charge
  split
  · exact taken_flag p c
  · exact congrArg (· + c.amount) (taken_flag p c)

@[simp] theorem terms_compromise (p : Period) (error : CriticalError) :
    (p.compromise error).terms = p.terms := rfl

@[simp] theorem terms_addCompletion (p : Period) (record : Absence) (amount : Amount) :
    (p.addCompletion record amount).terms = p.terms := rfl

@[simp] theorem terms_addReplacing (p : Period) (record : Absence) :
    (p.addReplacing record).terms = p.terms := rfl

@[simp] theorem terms_settle (p : Period) : p.settle.terms = p.terms := by
  unfold settle
  split <;> rfl

theorem taken_settle (p : Period) : p.settle.taken = p.taken := by
  unfold settle
  split <;> rfl

@[simp] theorem terms_completeWith (p : Period) (working : Option Amount) (record : Absence) :
    (p.completeWith working record).terms = p.terms := by
  unfold completeWith
  split
  · rfl
  · split <;> rfl

/-- Where a period applies: its category and its range decide which records concern it. -/
def place (period : Period) : Category × DateRange :=
  (period.category, period.range)

theorem place_of_terms {p q : Period} (h : p.terms = q.terms) : p.place = q.place := by
  obtain ⟨hc, hr, -⟩ := terms_eq_iff.1 h
  rw [place, place, hc, hr]

theorem takes_congr {p q : Period} (h : p.place = q.place) (record : Absence) :
    p.takes record = q.takes record := by
  obtain ⟨hc, hr⟩ := Prod.mk.inj h
  simp only [takes, covers, hc, hr]

theorem completes_congr {p q : Period} (h : p.place = q.place) (record : Absence) :
    p.completes record = q.completes record := by
  obtain ⟨hc, hr⟩ := Prod.mk.inj h
  simp only [completes, covers, hc, hr]

theorem replaces_congr {p q : Period} (h : p.place = q.place) (record : Absence) :
    p.replaces record = q.replaces record := by
  obtain ⟨hc, hr⟩ := Prod.mk.inj h
  simp only [replaces, covers, hc, hr]

theorem assess_congr {p q : Period} (h : p.terms = q.terms) (ht : p.taken = q.taken)
    (record : Absence) (amount : Amount) : p.assess record amount = q.assess record amount := by
  obtain ⟨hc, -, hl, hi⟩ := terms_eq_iff.1 h
  simp only [assess, unit, unit?, isPrior, hc, hl, hi, ht]

theorem amountError_congr {p q : Period} (h : p.terms = q.terms) (record : Absence) :
    p.amountError record = q.amountError record := by
  simp only [amountError, name, (terms_eq_iff.1 h).1]

@[simp] theorem place_seed (p : Period) (limit : Amount) : (p.seed limit).place = p.place := by
  unfold seed
  split <;> rfl

theorem findings_seed (p : Period) (limit : Amount) : (p.seed limit).findings = p.findings := by
  unfold seed
  split <;> rfl

/-- Errors leave all of a period but its compromise and its findings. -/
theorem compromiseAll_terms (errors : List CriticalError) (p : Period) :
    (errors.foldl compromise p).terms = p.terms ∧ (errors.foldl compromise p).taken = p.taken := by
  induction errors generalizing p with
  | nil => exact ⟨rfl, rfl⟩
  | cons error rest ih => exact ih (p.compromise error)

def concerns (period : Period) (record : Absence) : Bool :=
  period.takes record || period.completes record || period.replaces record

theorem concerns_eq_false {p : Period} {record : Absence} : p.concerns record = false ↔
    p.takes record = false ∧ p.completes record = false ∧ p.replaces record = false := by
  simp only [concerns, Bool.or_eq_false_iff, and_assoc]

theorem concerns_congr {p q : Period} (h : p.place = q.place) (record : Absence) :
    p.concerns record = q.concerns record := by
  rw [concerns, concerns, takes_congr h, completes_congr h, replaces_congr h]

end Period

namespace Chain

@[simp] theorem attach_terms (working : Option Amount) (record : Absence) (p : Period) :
    (attach working record p).terms = p.terms := by
  unfold attach
  split <;> split <;> simp

/-- Offering a record changes the terms of no period. -/
theorem offer_terms (working : Option Amount) (record : Absence) (periods : List Period) :
    (offer working record periods).1.map Period.terms = periods.map Period.terms := by
  induction periods with
  | nil => rfl
  | cons p rest ih =>
      simp only [offer]
      split
      · split
        · simp
        · split
          · simp
          · split
            · next heq =>
              rw [heq] at ih
              simpa using ih
            · next heq =>
              rw [heq] at ih
              simpa using ih
      · simpa using ih

/-- A record that no period takes is offered in vain. -/
theorem offer_of_not_takes {working : Option Amount} {record : Absence} {periods : List Period}
    (h : ∀ p ∈ periods, p.takes record = false) :
    offer working record periods = (periods, false) := by
  induction periods with
  | nil => rfl
  | cons p rest ih =>
      have head := h p (by simp)
      have tail := ih fun q hq => h q (by simp [hq])
      simp [offer, head, tail]

/-- An offer is dealt with exactly when some period takes the record. -/
theorem offer_dealt (working : Option Amount) (record : Absence) (periods : List Period) :
    (offer working record periods).2 = periods.any fun p => p.takes record := by
  induction periods with
  | nil => rfl
  | cons p rest ih =>
      rw [List.any_cons, ← ih]
      simp only [offer]
      split
      · next takes =>
        rw [takes, Bool.true_or]
        split
        · rfl
        · split
          · rfl
          · split <;> rfl
      · next takes =>
        rw [Bool.eq_false_iff.2 takes, Bool.false_or]

/-- A relation between periods that the bringing in of records respects: related periods have the
same terms and totals, and stay related whatever is done to both of them. -/
structure Respected (R : Period → Period → Prop) : Prop where
  terms {p q : Period} : R p q → p.terms = q.terms
  taken {p q : Period} : R p q → p.taken = q.taken
  charge {p q : Period} (c : Charge) : R p q → R (p.charge c) (q.charge c)
  compromise {p q : Period} (error : CriticalError) :
    R p q → R (p.compromise error) (q.compromise error)
  addCompletion {p q : Period} (record : Absence) (amount : Amount) :
    R p q → R (p.addCompletion record amount) (q.addCompletion record amount)
  addReplacing {p q : Period} (record : Absence) :
    R p q → R (p.addReplacing record) (q.addReplacing record)

/-- Related periods answer an offer alike and stay related. -/
theorem offer_related {R : Period → Period → Prop} (hR : Respected R) (working : Option Amount)
    (record : Absence) {ps qs : List Period} (h : List.Forall₂ R ps qs) :
    List.Forall₂ R (offer working record ps).1 (offer working record qs).1 ∧
      (offer working record ps).2 = (offer working record qs).2 := by
  induction h with
  | nil => exact ⟨.nil, rfl⟩
  | @cons p q ps qs hpq hrest ih =>
      have terms := hR.terms hpq
      have unit : p.unit = q.unit := by
        simp only [Period.unit, Period.unit?, (Period.terms_eq_iff.1 terms).1]
      simp only [offer]
      rw [Period.takes_congr (Period.place_of_terms terms), unit]
      split
      · cases record.weight? q.unit working with
        | none =>
          rw [Period.amountError_congr terms]
          exact ⟨.cons (hR.compromise _ hpq) hrest, rfl⟩
        | some amount =>
          dsimp only
          rw [Period.assess_congr terms (hR.taken hpq)]
          split
          · exact ⟨.cons (hR.charge _ hpq) hrest, rfl⟩
          · obtain ⟨related, answers⟩ := ih
            cases hp : offer working record ps with
            | mk ps' taken =>
              cases hq : offer working record qs with
              | mk qs' taken' =>
                rw [hp, hq] at related answers
                subst answers
                cases taken with
                | true => exact ⟨.cons hpq related, rfl⟩
                | false => exact ⟨.cons (hR.charge _ hpq) related, rfl⟩
      · exact ⟨.cons hpq ih.1, ih.2⟩

/-- Related periods stay related when a record completes them or is replaced in by them. -/
theorem attach_related {R : Period → Period → Prop} (hR : Respected R) (working : Option Amount)
    (record : Absence) {p q : Period} (h : R p q) :
    R (attach working record p) (attach working record q) := by
  have terms := hR.terms h
  have completed : R (if p.completes record then p.completeWith working record else p)
      (if q.completes record then q.completeWith working record else q) := by
    rw [Period.completes_congr (Period.place_of_terms terms)]
    split
    · simp only [Period.completeWith, (Period.terms_eq_iff.1 terms).1]
      split
      · exact h
      · split
        · exact hR.addCompletion _ _ h
        · rw [Period.amountError_congr terms]
          exact hR.compromise _ h
    · exact h
  simp only [attach]
  rw [Period.replaces_congr (Period.place_of_terms terms)]
  split
  · exact hR.addReplacing _ completed
  · exact completed

/-- A record that a period neither is completed by nor replaced in by is attached in vain. -/
theorem attach_of_not_concerned {working : Option Amount} {record : Absence} {p : Period}
    (completes : p.completes record = false) (replaces : p.replaces record = false) :
    attach working record p = p := by
  simp [attach, completes, replaces]

end Chain

end Entitlement
