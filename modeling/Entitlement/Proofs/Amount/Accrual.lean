import Mathlib.Algebra.Order.BigOperators.Group.List
import Mathlib.Data.Rat.Floor
import Mathlib.Tactic.Linarith
import Entitlement.Amount.Accrual
import Entitlement.Proofs.Calendar.DayNumber

/-!
Accrual in exact numbers. What a limit grants for part of a stretch of days is the exact share of it, rounded
down to whole days or minutes: it grows with the days, stays within the limit, and for parts that share no date
it adds up to no more than the limit.
-/

namespace Entitlement

open AmountUnit

theorem AmountUnit.grain_pos (unit : AmountUnit) : 0 < unit.grain := by
  cases unit <;> decide

theorem AmountUnit.grain_le (unit : AmountUnit) : unit.grain ≤ 100 := by
  cases unit <;> decide

section Share

variable {limit covered full : Int} {unit : AmountUnit} (pos : 0 < full)

include pos

/-- The share is the exact quotient rounded down to a multiple of the grain. -/
theorem accruedShare_eq_floor : accruedShare limit unit covered full =
    ⌊(limit * covered : ℚ) / full / unit.grain⌋ * unit.grain := by
  have divisor : 0 < full * unit.grain := mul_pos pos unit.grain_pos
  have divisor' : (0 : ℚ) < full * unit.grain := by exact_mod_cast divisor
  have floor : ⌊(limit * covered : ℚ) / full / unit.grain⌋ = limit * covered / (full * unit.grain) := by
    rw [div_div, Int.floor_eq_iff, le_div_iff₀ divisor', div_lt_iff₀ divisor']
    constructor
    · exact_mod_cast Int.ediv_mul_le _ divisor.ne'
    · exact_mod_cast Int.lt_ediv_add_one_mul_self _ divisor
  rw [floor, accruedShare]

theorem accruedShare_mul_le : accruedShare limit unit covered full * full ≤ limit * covered := by
  calc accruedShare limit unit covered full * full
      = limit * covered / (full * unit.grain) * (full * unit.grain) := by rw [accruedShare]; ring
    _ ≤ limit * covered := Int.ediv_mul_le _ (mul_pos pos unit.grain_pos).ne'

theorem lt_accruedShare_add_mul :
    limit * covered < (accruedShare limit unit covered full + unit.grain) * full := by
  calc limit * covered
      < (limit * covered / (full * unit.grain) + 1) * (full * unit.grain) :=
        Int.lt_ediv_add_one_mul_self _ (mul_pos pos unit.grain_pos)
    _ = (accruedShare limit unit covered full + unit.grain) * full := by rw [accruedShare]; ring

theorem accruedShare_le (nonneg : 0 ≤ limit) (part : covered ≤ full) :
    accruedShare limit unit covered full ≤ limit :=
  le_of_mul_le_mul_right ((accruedShare_mul_le pos).trans (mul_le_mul_of_nonneg_left part nonneg)) pos

theorem accruedShare_mono (nonneg : 0 ≤ limit) {more : Int} (h : covered ≤ more) :
    accruedShare limit unit covered full ≤ accruedShare limit unit more full :=
  mul_le_mul_of_nonneg_right
    (Int.ediv_le_ediv (mul_pos pos unit.grain_pos) (mul_le_mul_of_nonneg_left h nonneg))
    unit.grain_pos.le

theorem accruedShare_nonneg (nonneg : 0 ≤ limit) (begun : 0 ≤ covered) :
    0 ≤ accruedShare limit unit covered full :=
  mul_nonneg (Int.ediv_nonneg (mul_nonneg nonneg begun) (mul_pos pos unit.grain_pos).le) unit.grain_pos.le

/-- A range written the wrong way round counts days below zero; within the calendar its share stays an amount
all the same. -/
theorem le_accruedShare (nonneg : 0 ≤ limit) (fits : limit < 0x8000000000000000) (behind : -full < covered)
    (short : full < 0x200000000) : -0x8000000000000000 ≤ accruedShare limit unit covered full := by
  -- So low a share needs a limit near the end of the range, which is more than the days of the calendar allow.
  by_contra low
  have above : limit * covered < (accruedShare limit unit covered full + unit.grain) * full :=
    lt_accruedShare_add_mul pos
  have grain := unit.grain_le
  have days : limit * (1 - full) ≤ limit * covered := mul_le_mul_of_nonneg_left (by omega) nonneg
  have gap : limit < (accruedShare limit unit covered full + unit.grain + limit) * full := by
    linarith [days, above]
  have positive : 0 < accruedShare limit unit covered full + unit.grain + limit :=
    pos_of_mul_pos_left (nonneg.trans_lt gap) pos.le
  have small : (accruedShare limit unit covered full + unit.grain + limit) * full ≤ 98 * full :=
    mul_le_mul_of_nonneg_right (by omega) pos.le
  omega

end Share

section Grant

variable {limit : Amount} {unit : AmountUnit} {covered full : Int}

theorem accrue?_of_whole (whole : full ≤ covered) : accrue? limit unit covered full = some limit :=
  if_pos (.inr whole)

/-- What a limit grants for some days of a stretch: all of it for at least the days of the stretch, else the
share. -/
def Grants (limit : Amount) (unit : AmountUnit) (covered full : Int) (total : Amount) : Prop :=
  accrue? limit unit covered full = some total ∧
    ((full ≤ covered ∧ total = limit) ∨
      (covered < full ∧ total.val = accruedShare limit.val unit covered full))

/-- A limit grants something if, for part of a stretch, the product needs at most 96 bits and the share is not
below the amounts. -/
theorem exists_grants_of_fits (nonneg : 0 ≤ limit.val) (pos : 0 < full)
    (fits : covered < full → (limit.val * covered).natAbs < Nat.pow 2 96 ∧
      -0x8000000000000000 ≤ accruedShare limit.val unit covered full) :
    ∃ total, Grants limit unit covered full total := by
  by_cases whole : full ≤ covered
  · exact ⟨limit, accrue?_of_whole whole, .inl ⟨whole, rfl⟩⟩
  · have part : covered < full := Int.not_le.1 whole
    obtain ⟨small, low⟩ := fits part
    have high : accruedShare limit.val unit covered full < 0x8000000000000000 :=
      (accruedShare_le pos nonneg part.le).trans_lt limit.upper
    refine ⟨⟨_, low, high⟩, ?_, .inr ⟨part, rfl⟩⟩
    rw [accrue?, if_neg (by omega), if_neg (Nat.not_le.2 small), Amount.ofInt?, dif_pos ⟨low, high⟩]
    rfl

/-- For days counted from the begin of the stretch the limit grants something, if all of its days need at most
96 bits. -/
theorem exists_grants (unit : AmountUnit) (nonneg : 0 ≤ limit.val) (pos : 0 < full)
    (small : limit.val * full < 2 ^ 96) (begun : 0 ≤ covered) :
    ∃ total, Grants limit unit covered full total := by
  refine exists_grants_of_fits nonneg pos fun part => ⟨?_, ?_⟩
  · show (limit.val * covered).natAbs < 2 ^ 96
    have product : 0 ≤ limit.val * covered := mul_nonneg nonneg begun
    have less : limit.val * covered ≤ limit.val * full := mul_le_mul_of_nonneg_left part.le nonneg
    omega
  · exact Int.le_trans (by decide) (accruedShare_nonneg pos nonneg begun)

/-- For a range inside another the limit grants something, whatever the limit. -/
theorem exists_grants_within (unit : AmountUnit) (nonneg : 0 ≤ limit.val) {natural range : DateRange}
    (within : range.Within natural) :
    ∃ total, Grants limit unit range.days natural.days total := by
  obtain ⟨pos, upper, lower, short⟩ := within.days_bounds
  refine exists_grants_of_fits nonneg pos fun part =>
    ⟨?_, le_accruedShare pos nonneg limit.upper lower short⟩
  calc (limit.val * range.days).natAbs
      = limit.val.natAbs * range.days.natAbs := Int.natAbs_mul _ _
    _ < 0x8000000000000000 * 0x200000000 :=
      Nat.mul_lt_mul'' (by have := limit.upper; omega) (by omega)
    _ = Nat.pow 2 96 := rfl

namespace Grants

variable {total : Amount}

theorem unique (grants : Grants limit unit covered full total) {other : Amount}
    (granted : accrue? limit unit covered full = some other) : total = other :=
  Option.some.inj (grants.1.symm.trans granted)

theorem le_limit (grants : Grants limit unit covered full total) (nonneg : 0 ≤ limit.val) (pos : 0 < full) :
    total.val ≤ limit.val := by
  obtain ⟨-, ⟨-, rfl⟩ | ⟨part, share⟩⟩ := grants
  · exact le_rfl
  · rw [share]
    exact accruedShare_le pos nonneg part.le

theorem nonneg (grants : Grants limit unit covered full total) (nonneg : 0 ≤ limit.val) (pos : 0 < full)
    (begun : 0 ≤ covered) : 0 ≤ total.val := by
  obtain ⟨-, ⟨-, rfl⟩ | ⟨-, share⟩⟩ := grants
  · exact nonneg
  · rw [share]
    exact accruedShare_nonneg pos nonneg begun

theorem mono (grants : Grants limit unit covered full total) {more : Int} {larger : Amount}
    (others : Grants limit unit more full larger) (nonneg : 0 ≤ limit.val) (pos : 0 < full)
    (le : covered ≤ more) : total.val ≤ larger.val := by
  obtain ⟨-, ⟨-, rfl⟩ | ⟨part, share⟩⟩ := others
  · exact grants.le_limit nonneg pos
  · obtain ⟨-, ⟨whole, -⟩ | ⟨-, share'⟩⟩ := grants
    · exact absurd (whole.trans le) (Int.not_le.2 part)
    · rw [share, share']
      exact accruedShare_mono pos nonneg le

/-- A day never grants more than its even part of the limit. -/
theorem mul_le (grants : Grants limit unit covered full total) (nonneg : 0 ≤ limit.val) (pos : 0 < full)
    (inside : covered ≤ full) : total.val * full ≤ limit.val * max covered 0 := by
  obtain ⟨-, ⟨whole, rfl⟩ | ⟨-, share⟩⟩ := grants
  · rw [le_antisymm inside whole, max_eq_left pos.le]
  · rw [share]
    exact (accruedShare_mul_le pos).trans (mul_le_mul_of_nonneg_left (le_max_left _ _) nonneg)

end Grants

/-- Ranges that share no date are together granted at most the limit of the range around them. -/
theorem exists_grants_slices (nonneg : 0 ≤ limit.val) {natural : DateRange} (pos : 0 < natural.days)
    {slices : List DateRange} (within : ∀ r ∈ slices, r.Within natural)
    (apart : slices.Pairwise fun a b => ∀ d ∈ a, d ∉ b) :
    ∃ totals : List Amount,
      List.Forall₂ (fun range total => accrue? limit unit range.days natural.days = some total) slices totals ∧
      (totals.map (·.val)).sum ≤ limit.val := by
  have granted : ∀ slices : List DateRange, (∀ r ∈ slices, r.Within natural) → ∃ totals : List Amount,
      List.Forall₂ (fun range total => accrue? limit unit range.days natural.days = some total) slices totals ∧
      (totals.map (·.val)).sum * natural.days ≤ limit.val * (slices.map fun r => max r.days 0).sum := by
    intro slices within
    induction slices with
    | nil => exact ⟨[], .nil, by simp⟩
    | cons range rest ih =>
      obtain ⟨here, within⟩ := List.forall_mem_cons.1 within
      obtain ⟨totals, all, sum⟩ := ih within
      obtain ⟨total, grants⟩ := exists_grants_within unit nonneg here
      have first := grants.mul_le nonneg pos here.days_bounds.2.1
      refine ⟨total :: totals, .cons grants.1 all, ?_⟩
      rw [List.map_cons, List.map_cons, List.sum_cons, List.sum_cons, add_mul, mul_add]
      exact add_le_add first sum
  obtain ⟨totals, all, sum⟩ := granted slices within
  refine ⟨totals, all, le_of_mul_le_mul_right (sum.trans (mul_le_mul_of_nonneg_left ?_ nonneg)) pos⟩
  exact (DateRange.sum_days_le within apart).trans_eq (max_eq_left pos.le)

/-- What a limit grants for the days of a stretch: the exact share rounded down for a part of it, and all of it
for the whole. It grows with the days and lies between nothing and the limit. -/
structure Accrues (limit : Amount) (unit : AmountUnit) (full : Int) : Prop where
  part {covered : Int} : 0 ≤ covered → covered < full →
    ∃ total, accrue? limit unit covered full = some total ∧
      total.val = ⌊(limit.val * covered : ℚ) / full / unit.grain⌋ * unit.grain
  whole {covered : Int} : full ≤ covered → accrue? limit unit covered full = some limit
  monotone {covered more : Int} {total larger : Amount} : 0 ≤ covered → covered ≤ more →
    accrue? limit unit covered full = some total → accrue? limit unit more full = some larger →
      total.val ≤ larger.val
  bounded {covered : Int} {total : Amount} : 0 ≤ covered →
    accrue? limit unit covered full = some total → 0 ≤ total.val ∧ total.val ≤ limit.val

theorem accrues_of_small (nonneg : 0 ≤ limit.val) (pos : 0 < full)
    (small : limit.val * full < 2 ^ 96) : Accrues limit unit full where
  part := by
    intro covered begun part
    obtain ⟨total, granted, ⟨whole, -⟩ | ⟨-, share⟩⟩ := exists_grants unit nonneg pos small begun
    · exact absurd whole (Int.not_le.2 part)
    · exact ⟨total, granted, share.trans (accruedShare_eq_floor pos)⟩
  whole := accrue?_of_whole
  monotone := by
    intro covered more total larger begun le granted granted'
    obtain ⟨a, grants⟩ := exists_grants unit nonneg pos small begun
    obtain ⟨b, others⟩ := exists_grants unit nonneg pos small (begun.trans le)
    obtain rfl := grants.unique granted
    obtain rfl := others.unique granted'
    exact grants.mono others nonneg pos le
  bounded := by
    intro covered total begun granted
    obtain ⟨a, grants⟩ := exists_grants unit nonneg pos small begun
    obtain rfl := grants.unique granted
    exact ⟨grants.nonneg nonneg pos begun, grants.le_limit nonneg pos⟩

end Grant

end Entitlement
