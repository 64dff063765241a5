import Mathlib.Algebra.Order.BigOperators.Group.List
import Mathlib.Algebra.Order.Ring.Int
import Entitlement.Chain.Basic
import Entitlement.Proofs.Calendar.Windows

/-!
What is left over a whole chain. Differences and sums stop at the ends of their range, in every period and again
along the chain, and overdrawn periods count as empty in between. It comes out all the same as the exact capacity
of the chain, cut off once at the greatest amount; so the order of the periods does not matter.
-/

namespace Entitlement

namespace Period

/-- What a limited period can still take, counted exactly. An overdrawn one can take nothing. -/
def capacity (period : Period) : Int :=
  max 0 (period.limit.val - period.taken.val)

theorem capacity_nonneg (period : Period) : 0 ≤ period.capacity :=
  Int.le_max_left _ _

theorem remaining_eq (period : Period) :
    period.remaining = if period.limit.val < 0 then none else some period.residual := by
  simp only [remaining, isUnlimited, Amount.lt_def, Amount.zero_val, decide_eq_true_eq]

/-- What is left of a period is its capacity, cut off at the greatest amount. -/
theorem max_residual_val (period : Period) :
    (max period.residual 0).val = min 0x7fffffffffffffff period.capacity := by
  rw [Amount.max_val, residual, Amount.sub_val, Amount.zero_val, capacity]
  omega

end Period

namespace Chain

def counted (chain : Chain) : List Period :=
  chain.periods.filter fun period => period.unit?.isSome

/-- What the periods of a chain can still take together, counted exactly. -/
def capacity (chain : Chain) : Int :=
  (chain.counted.map Period.capacity).sum

/-- One more period adds its capacity to a sum that was cut off at the greatest amount. -/
theorem add_max_residual_val {sum : Amount} {total : Int} (cut : sum.val = min 0x7fffffffffffffff total)
    (nonneg : 0 ≤ total) (period : Period) :
    (sum + max period.residual 0).val = min 0x7fffffffffffffff (total + period.capacity) := by
  have more := period.capacity_nonneg
  rw [Amount.add_val, period.max_residual_val, cut]
  omega

/-- Along any periods the sum is the exact one, cut off, unless one of them is unlimited. -/
theorem foldlM_remaining (periods : List Period) (sum : Amount) {total : Int}
    (cut : sum.val = min 0x7fffffffffffffff total) (nonneg : 0 ≤ total) :
    (periods.foldlM (fun sum (period : Period) => period.remaining.map fun r => sum + max r 0) sum).map (·.val) =
      if ∃ period ∈ periods, period.limit.val < 0 then none
      else some (min 0x7fffffffffffffff (total + (periods.map Period.capacity).sum)) := by
  induction periods generalizing sum total with
  | nil => simpa using cut
  | cons period rest ih =>
    rw [List.foldlM_cons, period.remaining_eq]
    by_cases unlimited : period.limit.val < 0
    · rw [if_pos unlimited, if_pos ⟨period, List.mem_cons_self, unlimited⟩]
      rfl
    · have more := period.capacity_nonneg
      rw [if_neg unlimited, List.map_cons, List.sum_cons, ← Int.add_assoc]
      simp only [List.exists_mem_cons_iff, unlimited, false_or]
      exact ih _ (add_max_residual_val cut nonneg period) (by omega)

theorem residual_val (chain : Chain) : chain.residual.map (·.val) =
    if ∃ period ∈ chain.counted, period.limit.val < 0 then none
    else some (min 0x7fffffffffffffff chain.capacity) := by
  have along := foldlM_remaining chain.counted 0 rfl (Int.le_refl 0)
  rwa [Int.zero_add] at along

/-- The order of the periods does not matter. -/
theorem residual_perm {chain other : Chain} (same : other.periods.Perm chain.periods) :
    other.residual = chain.residual := by
  have counted : other.counted.Perm chain.counted := same.filter _
  have capacity : other.capacity = chain.capacity := (counted.map Period.capacity).sum_eq
  apply Option.map_injective fun _ _ => Amount.ext
  rw [residual_val, residual_val, capacity]
  simp only [counted.mem_iff]

/-- A chain has no residual just if a period that counts amounts is unlimited. Otherwise the residual is what its
periods can still take together, counted exactly and cut off at the greatest amount. The same periods in another
order have the same residual. -/
theorem residual_eq_capacity (chain other : Chain) (same : other.periods.Perm chain.periods) :
    (chain.residual = none ↔ ∃ period ∈ chain.periods, period.unit?.isSome = true ∧ period.limit.val < 0) ∧
      (∀ left, chain.residual = some left → left.val = min 0x7fffffffffffffff chain.capacity) ∧
      other.residual = chain.residual := by
  refine ⟨?_, fun left found => ?_, residual_perm same⟩
  · rw [← Option.map_eq_none_iff, residual_val, ite_eq_left_iff, imp_iff_not (by simp), not_not]
    simp only [counted, List.mem_filter, and_assoc]
  · have value := chain.residual_val
    rw [found, Option.map_some] at value
    split at value
    · cases value
    · exact Option.some.inj value

def samplePeriod (limit taken : Int) : Period :=
  { Period.start ⟨"LEAVE", "", .programmed, .year, some ⟨.units, .ofList ["LV"], 0⟩, none, none, false, false⟩
      (.yearAround (.sample 2024 3 1)) (.clamp limit) none with taken := .clamp taken }

def samplePeriods : List Period :=
  [samplePeriod 0 300, samplePeriod 0x7fffffffffffffff (-100), samplePeriod 5 0]

def sampleOver (periods : List Period) : Chain :=
  { Chain.blank ⟨1, "LEAVE", .sample 2024 3 1, ⟨[], [], []⟩⟩ with periods := periods }

/-- Of an overdrawn period, one whose difference passes the end of the range and one that goes beyond it, the
greatest amount is left, whichever comes first. -/
theorem greatest_amount_left : samplePeriods.reverse.Perm samplePeriods ∧
    (sampleOver samplePeriods).capacity = 0x7fffffffffffffff + 105 ∧
    (∃ left, (sampleOver samplePeriods).residual = some left ∧ left.val = 0x7fffffffffffffff) ∧
      (sampleOver samplePeriods.reverse).residual = (sampleOver samplePeriods).residual := by
  have turned : samplePeriods.reverse.Perm samplePeriods := List.reverse_perm _
  have exact : (sampleOver samplePeriods).capacity = 0x7fffffffffffffff + 105 := by decide
  obtain ⟨unlimited, value, same⟩ :=
    residual_eq_capacity (sampleOver samplePeriods) (sampleOver samplePeriods.reverse) turned
  obtain ⟨left, found⟩ := Option.ne_none_iff_exists'.1 (mt unlimited.1 (by decide))
  exact ⟨turned, exact, ⟨left, found, by rw [value left found, exact]; rfl⟩, same⟩

end Chain

end Entitlement
