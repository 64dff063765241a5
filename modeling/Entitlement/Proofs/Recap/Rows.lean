import Entitlement.Chain.Build
import Entitlement.Proofs.Amount.Decimal
import Entitlement.Proofs.Chain.Layout
import Entitlement.Recap.Tables

/-!
What the row of a period shows. Limit, taken and remaining amounts are shown in the unit of the limit. The
completion residual is always shown as hours, whatever unit the completion counts in; hours and days are never
the same number, except for nothing at all.
-/

namespace Entitlement

namespace Amount

/-- As hours and as days only nothing is the same number. -/
theorem value_minutes_eq_units_iff (a : Amount) :
    (a.toDecimal .minutes).value = (a.toDecimal .units).value ↔ a = 0 := by
  constructor
  · intro same
    rw [value_toDecimal, value_toDecimal, div_left_inj' (by norm_num)] at same
    have equal : a.hundredths .minutes = a.val := by exact_mod_cast same
    have near := abs_le.1 a.hundredths_near
    apply ext
    rw [zero_val]
    omega
  · rintro rfl
    norm_num [Decimal.value, toDecimal]

end Amount

namespace Period

def residualInUnit (p : Period) : Option Decimal :=
  p.category.completion.bind fun completion => p.finalResidual.map (·.toDecimal completion.unit)

theorem finalResidual_isSome {p : Period} {completion : Completion}
    (completes : p.category.completion = some completion) : ∃ left, p.finalResidual = some left := by
  rw [finalResidual, completes]
  exact ⟨_, rfl⟩

theorem isUnlimited_iff (p : Period) : p.isUnlimited = true ↔ ¬ 0 ≤ p.limit := by
  rw [isUnlimited, decide_eq_true_iff, Amount.lt_def, Amount.le_def, Amount.zero_val]
  omega

theorem row_limit (p : Period) :
    p.balance.row.limit = if p.isUnlimited then none else some (p.limit.toDecimal p.unit) := by
  show (if 0 ≤ p.limit then some (p.limit.toDecimal p.unit) else none) = _
  by_cases limited : 0 ≤ p.limit
  · rw [if_pos limited, if_neg (fun unlimited => p.isUnlimited_iff.1 unlimited limited)]
  · rw [if_neg limited, if_pos (p.isUnlimited_iff.2 limited)]

theorem row_remaining (p : Period) :
    p.balance.row.remaining = if p.isUnlimited then none else some (p.residual.toDecimal p.unit) := by
  show p.remaining.map (·.toDecimal p.unit) = _
  unfold remaining
  split
  · rfl
  · rfl

/-- The residual is shown in its unit just if that is minutes, or nothing is left over. -/
theorem row_residual_iff (p : Period) :
    p.balance.row.completionResidual.map Decimal.value = p.residualInUnit.map Decimal.value ↔
      ∀ completion, p.category.completion = some completion →
        completion.unit = .minutes ∨ p.finalResidual = some 0 := by
  have row : p.balance.row.completionResidual = p.finalResidual.map (·.toDecimal .minutes) := rfl
  rw [row]
  cases completes : p.category.completion with
  | none => simp [residualInUnit, finalResidual, completes]
  | some completion =>
    obtain ⟨left, residual⟩ := finalResidual_isSome completes
    simp only [residualInUnit, completes, residual, Option.bind_some, Option.map_some, Option.some.injEq,
      forall_eq']
    cases completion.unit with
    | minutes => simp
    | units => simp [Amount.value_minutes_eq_units_iff]

/-- The row of a period shows no limit and nothing remaining just if the period is unlimited; otherwise it
shows limit and remaining amount, and always the taken amount, in the unit of the limit, or in days where the
category has none. The completion residual it shows as hours. That is the number in the unit of the completion
just if the completion counts minutes or leaves nothing. -/
theorem row_of_period (p : Period) :
    (p.balance.row.limit = none ↔ p.isUnlimited = true) ∧
      (p.balance.row.remaining = none ↔ p.isUnlimited = true) ∧
      (p.isUnlimited = false → p.balance.row.limit = some (p.limit.toDecimal p.unit) ∧
        p.balance.row.remaining = some (p.residual.toDecimal p.unit)) ∧
      p.balance.row.taken = p.taken.toDecimal p.unit ∧
      (p.balance.row.completionResidual.map Decimal.value = p.residualInUnit.map Decimal.value ↔
        ∀ completion, p.category.completion = some completion →
          completion.unit = .minutes ∨ p.finalResidual = some 0) := by
  have limit := p.row_limit
  have remaining := p.row_remaining
  refine ⟨?_, ?_, fun limited => ?_, rfl, p.row_residual_iff⟩
  · rw [limit]
    cases p.isUnlimited <;> simp
  · rw [remaining]
    cases p.isUnlimited <;> simp
  · rw [limit, remaining, limited]
    exact ⟨if_neg Bool.false_ne_true, if_neg Bool.false_ne_true⟩

def samplePermits : Category :=
  ⟨"PERMITS", "", .programmed, .year, some ⟨.minutes, .ofList ["09M"], 1080⟩,
    some ⟨.minutes, .ofList ["09M"], [⟨"09H1", 120⟩]⟩, none, false, false⟩

def sampleChain (category : Category) (draft : AbsenceDraft) : Except CriticalError Chain :=
  Chain.build (.ofLists [category] []) .unknown
    ⟨1, category.name, draft.date, ⟨[⟨.sample 2020 1 1, none⟩], [], []⟩⟩ [⟨draft, 1⟩]

/-- Ninety minutes of permits leave sixteen and a half hours, and are completed by one and a half. -/
theorem permits_shown_in_hours : ∃ chain p,
    sampleChain samplePermits ⟨1, "09M", .sample 2024 4 1, .specifiedMinutes, some 90, none⟩ = .ok chain ∧
      p ∈ chain.periods ∧ p.isUnlimited = false ∧ p.balance.row.remaining = some ⟨1650, 2⟩ ∧
      p.balance.row.completionResidual.map Decimal.value = p.residualInUnit.map Decimal.value := by
  have run : ((sampleChain samplePermits
      ⟨1, "09M", .sample 2024 4 1, .specifiedMinutes, some 90, none⟩).toOption.any fun chain =>
        chain.periods.any fun p => decide (p.category = samplePermits ∧ p.isUnlimited = false ∧
          p.residual.toDecimal p.unit = ⟨1650, 2⟩)) = true := by cbv
  obtain ⟨chain, built, found⟩ := (Option.any_eq_true _ _).1 run
  obtain ⟨p, mem, shown⟩ := List.any_eq_true.1 found
  obtain ⟨permits, limited, left⟩ := of_decide_eq_true shown
  obtain ⟨-, -, amounts, -, residual⟩ := row_of_period p
  refine ⟨chain, p, Chain.ok_of_toOption built, mem, limited, ?_, residual.2 fun completion asks => .inl ?_⟩
  · rw [(amounts limited).2, left]
  · rw [permits] at asks
    cases asks
    rfl

def sampleDaily : Category :=
  ⟨"DAILY", "", .programmed, .year, none, some ⟨.units, .ofList ["OT"], [⟨"RD", 200⟩]⟩, none, false, false⟩

/-- One day of overtime is left over, and the row shows it as 1.67 hours. -/
theorem day_shown_in_hours : ∃ chain p,
    sampleChain sampleDaily ⟨1, "OT", .sample 2024 4 1, .allDay, none, none⟩ = .ok chain ∧
      p ∈ chain.periods ∧ p.residualInUnit = some ⟨100, 2⟩ ∧
      p.balance.row.completionResidual = some ⟨167, 2⟩ := by
  have run : ((sampleChain sampleDaily ⟨1, "OT", .sample 2024 4 1, .allDay, none, none⟩).toOption.any
      fun chain => chain.periods.any fun p => decide (p.residualInUnit = some ⟨100, 2⟩ ∧
        p.balance.row.completionResidual = some ⟨167, 2⟩)) = true := by cbv
  obtain ⟨chain, built, found⟩ := (Option.any_eq_true _ _).1 run
  obtain ⟨p, mem, shown⟩ := List.any_eq_true.1 found
  exact ⟨chain, p, Chain.ok_of_toOption built, mem, of_decide_eq_true shown⟩

end Period

end Entitlement
