import Entitlement.Chain.Layout
import Entitlement.Proofs.Amount.Accrual

/-!
The limit of a period cut to the contract. Inside the calendar the product of limit and days stays below 96 bits
and the share is an amount, so no limit comes from an overflow; ranges that share no date are granted no more
than the limit of the range around them.
-/

namespace Entitlement

open DateRange

/-- The limit of a period that covers `clipped` of its natural range: the limit of its category, or what accrues
of it. -/
structure Category.LimitExact (category : Category) (natural clipped : DateRange) : Prop where
  bare : category.takable = none → category.limitFor natural clipped = -1
  fixed {takable : Takable} : category.takable = some takable →
    takable.isUnlimited = true ∨ category.pattern ≠ .vacations →
      category.limitFor natural clipped = takable.limit
  accrued {takable : Takable} : category.takable = some takable → takable.isUnlimited = false →
    category.pattern = .vacations →
      Grants takable.limit takable.unit clipped.days natural.days (category.limitFor natural clipped)

theorem Category.limitExact (category : Category) {natural clipped : DateRange}
    (within : clipped.Within natural) : category.LimitExact natural clipped where
  bare := by
    intro none
    rw [limitFor, none]
  fixed := by
    intro takable taken unaccrued
    rw [limitFor, taken]
    dsimp only
    split
    · rfl
    · next limited =>
      have pattern : category.pattern ≠ .vacations := unaccrued.resolve_left limited
      split
      · next vacations => exact absurd vacations pattern
      · rfl
      · rfl
  accrued := by
    intro takable taken limited vacations
    have nonneg : 0 ≤ takable.limit.val := Int.not_lt.1 (of_decide_eq_false limited)
    obtain ⟨total, grants⟩ := exists_grants_within takable.unit nonneg within
    have total_eq : category.limitFor natural clipped = total := by
      simp only [limitFor, taken, limited, vacations, grants.1]
      rfl
    exact total_eq ▸ grants

/-- Accrual never grants too much: the share of a part is exact and rounded down, ranges that share no date add
up to at most the limit, and no limit of a period is lost to an overflow. -/
theorem accrual_exact {limit : Amount} {unit : AmountUnit} {full : Int} (nonneg : 0 ≤ limit.val)
    (pos : 0 < full) (small : limit.val * full < 2 ^ 96) :
    Accrues limit unit full ∧
      (∀ {natural : DateRange} {slices : List DateRange}, natural.days = full →
        (∀ r ∈ slices, r.Within natural) → (slices.Pairwise fun a b => ∀ d ∈ a, d ∉ b) →
          ∃ totals : List Amount,
            List.Forall₂ (fun range total => accrue? limit unit range.days natural.days = some total)
              slices totals ∧
            (totals.map (·.val)).sum ≤ limit.val) ∧
      ∀ (category : Category) {natural clipped : DateRange}, clipped.Within natural →
        category.LimitExact natural clipped := by
  refine ⟨accrues_of_small nonneg pos small, ?_, fun category _ _ => category.limitExact⟩
  intro natural slices days within apart
  exact exists_grants_slices nonneg (days ▸ pos) within apart

def sampleVacations : Category :=
  ⟨"VACATIONS", "", .vacations, .year, some ⟨.units, .ofList ["V"], 2600⟩, none, none, false, true⟩

/-- Of 26 days a year the days before and behind a break of a month grant no more than 26 together. -/
theorem accrual_exact_around_break :
    let year : DateRange := yearAround (Date.sample 2026 1 1)
    let before : DateRange := ⟨Date.sample 2026 1 1, Date.sample 2026 4 10⟩
    let behind : DateRange := ⟨Date.sample 2026 5 11, Date.sample 2026 12 31⟩
    year.days = 365 ∧ before.days = 100 ∧ (accrue? 2600 .units 100 365).map (·.val) = some 700 ∧
      Accrues 2600 .units 365 ∧ sampleVacations.LimitExact year before ∧
      ∃ totals : List Amount,
        List.Forall₂ (fun range total => accrue? 2600 .units range.days year.days = some total)
          [before, behind] totals ∧
        (totals.map (·.val)).sum ≤ 2600 := by
  intro year before behind
  have within : before.Within year ∧ behind.Within year := by decide
  have apart : ∀ d ∈ before, d ∉ behind := fun d inBefore inBehind =>
    absurd (Date.le_trans inBehind.1 inBefore.2) (by decide)
  obtain ⟨accrues, slices, limits⟩ :=
    @accrual_exact 2600 .units 365 (by decide) (by decide) (by decide)
  refine ⟨by decide, by decide, by decide, accrues, limits sampleVacations within.1, ?_⟩
  exact slices (by decide) (by simpa using within) (by simpa using apart)

end Entitlement
