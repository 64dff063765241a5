import Mathlib.Data.Rat.Floor
import Entitlement.Amount.Decimal

/-!
Amounts as decimals are faithful. A minute is five thirds of a hundredth of an hour, so rounding to hundredths
is off by a third of one at most: there are no ties, and the hundredths of two different amounts are never the
same. How ties are broken has no part in any of this.
-/

namespace Entitlement

namespace Decimal

def value (d : Decimal) : ℚ :=
  d.coefficient / 10 ^ d.places

/-- A decimal is a multiple of a hundredth, and every other multiple is farther away from a number. -/
def IsNearest (d : Decimal) (x : ℚ) : Prop :=
  ∃ n : ℤ, d.value = n / 100 ∧ ∀ m : ℤ, m ≠ n → |x - n / 100| < |x - m / 100|

end Decimal

namespace Amount

/-- A rounded quotient is at most half of one away from the exact one, however ties are broken. -/
theorem roundQuotient_near (n : Int) {d : Nat} (pos : 0 < d) : 2 * |n - d * roundQuotient n d| ≤ d := by
  have division : d * (n / d) + n % d = n := Int.mul_ediv_add_emod n d
  have low : 0 ≤ n % d := Int.emod_nonneg n (by omega)
  have high : n % d < d := Int.emod_lt_of_pos n (by omega)
  unfold roundQuotient
  dsimp only
  split
  · next below =>
    have off : n - d * (n / d) = n % d := by omega
    rw [off, abs_of_nonneg low]
    omega
  · next above =>
    have off : n - d * (n / d + 1) = n % d - d := by
      rw [mul_add]
      omega
    rw [off, abs_of_neg (by omega)]
    omega

def hundredths (a : Amount) : AmountUnit → Int
  | .units => a.val
  | .minutes => roundQuotient (a.val * 100) 60

/-- Three hundredths of an hour and five minutes never differ by more than one part in three hundred. -/
theorem hundredths_near (a : Amount) : |5 * a.val - 3 * a.hundredths .minutes| ≤ 1 := by
  have near : 2 * |a.val * 100 - 60 * a.hundredths .minutes| ≤ 60 :=
    roundQuotient_near (a.val * 100) (d := 60) (by omega)
  have scaled : a.val * 100 - 60 * a.hundredths .minutes =
      20 * (5 * a.val - 3 * a.hundredths .minutes) := by ring
  rw [scaled, abs_mul, abs_of_pos (by omega : (0 : Int) < 20)] at near
  omega

theorem value_toDecimal (a : Amount) (unit : AmountUnit) :
    (a.toDecimal unit).value = a.hundredths unit / 100 := by
  cases unit with
  | units => norm_num [toDecimal, Decimal.value, hundredths]
  | minutes =>
    unfold toDecimal
    dsimp only
    split
    · next whole =>
      have near := abs_le.1 a.hundredths_near
      have exact : a.hundredths .minutes = a.val / 60 * 100 := by omega
      rw [exact, Decimal.value]
      push_cast
      ring
    · norm_num [Decimal.value, hundredths]

/-- An amount is shown by more hundredths than any smaller one. -/
theorem hundredths_lt {a b : Amount} (lt : a < b) (unit : AmountUnit) :
    a.hundredths unit < b.hundredths unit := by
  rw [lt_def] at lt
  cases unit with
  | units => exact lt
  | minutes =>
    have first := abs_le.1 a.hundredths_near
    have second := abs_le.1 b.hundredths_near
    omega

theorem hundredths_neg {a : Amount} (above : -0x8000000000000000 < a.val) (unit : AmountUnit) :
    (-a).hundredths unit = -a.hundredths unit := by
  have upper := a.upper
  have negated : (-a).val = -a.val := clamp_val_of_fits (by omega) (by omega)
  cases unit with
  | units => exact negated
  | minutes =>
    have first := abs_le.1 a.hundredths_near
    have second := abs_le.1 (-a).hundredths_near
    omega

/-- The hundredths of an hour against the exact quotient. -/
theorem off_by (a : Amount) (n : ℤ) : (a.val / 60 : ℚ) - n / 100 = ((5 * a.val - 3 * n : ℤ) : ℚ) / 300 := by
  push_cast
  ring

theorem value_near (a : Amount) : |(a.val / 60 : ℚ) - (a.toDecimal .minutes).value| ≤ 1 / 300 := by
  have near : |((5 * a.val - 3 * a.hundredths .minutes : ℤ) : ℚ)| ≤ 1 := by exact_mod_cast a.hundredths_near
  rw [value_toDecimal, off_by, abs_div, abs_of_pos (by norm_num : (0 : ℚ) < 300)]
  linarith

/-- Another multiple of a hundredth is at least twice as far off. -/
theorem isNearest_toDecimal (a : Amount) : (a.toDecimal .minutes).IsNearest (a.val / 60) := by
  refine ⟨a.hundredths .minutes, a.value_toDecimal .minutes, fun m other => ?_⟩
  have near := abs_le.1 a.hundredths_near
  have farther : |5 * a.val - 3 * a.hundredths .minutes| < |5 * a.val - 3 * m| := by
    refine lt_of_le_of_lt a.hundredths_near (lt_abs.2 ?_)
    omega
  rw [off_by, off_by, abs_div, abs_div]
  exact div_lt_div_of_pos_right (by exact_mod_cast farther) (by norm_num)

theorem value_lt {a b : Amount} (lt : a < b) (unit : AmountUnit) :
    (a.toDecimal unit).value < (b.toDecimal unit).value := by
  rw [value_toDecimal, value_toDecimal]
  have more : (a.hundredths unit : ℚ) < b.hundredths unit := by exact_mod_cast hundredths_lt lt unit
  linarith

theorem value_injective {a b : Amount} {unit : AmountUnit}
    (same : (a.toDecimal unit).value = (b.toDecimal unit).value) : a = b := by
  rcases lt_trichotomy a.val b.val with lt | eq | gt
  · exact absurd same (value_lt (lt_def.2 lt) unit).ne
  · exact ext eq
  · exact absurd same (value_lt (lt_def.2 gt) unit).ne'

theorem value_neg {a : Amount} (above : -0x8000000000000000 < a.val) (unit : AmountUnit) :
    ((-a).toDecimal unit).value = -(a.toDecimal unit).value := by
  rw [value_toDecimal, value_toDecimal, hundredths_neg above]
  push_cast
  ring

/-- Minutes are shown by the multiple of a hundredth that is nearest to the exact hours, at most a three
hundredth off; days are shown exactly. Opposite amounts are shown by opposite numbers, but for the least amount,
which has no opposite; larger amounts are shown by larger numbers, so what is shown tells the amount. -/
theorem toDecimal_faithful (a b : Amount) :
    (a.toDecimal .minutes).IsNearest (a.val / 60) ∧
      |(a.val / 60 : ℚ) - (a.toDecimal .minutes).value| ≤ 1 / 300 ∧
      (a.toDecimal .units).value = a.val / 100 ∧
      (∀ unit, -0x8000000000000000 < a.val → ((-a).toDecimal unit).value = -(a.toDecimal unit).value) ∧
      (∀ unit, a < b → (a.toDecimal unit).value < (b.toDecimal unit).value) ∧
      ∀ unit, (a.toDecimal unit).value = (b.toDecimal unit).value → a = b :=
  ⟨a.isNearest_toDecimal, a.value_near, a.value_toDecimal .units, fun unit above => value_neg above unit,
    fun unit lt => value_lt lt unit, fun _ same => value_injective same⟩

/-- A hundred minutes are 1.67 hours, one minute more is more, and a hundred minutes owed are their opposite. -/
theorem hundred_minutes_shown :
    -0x8000000000000000 < (100 : Amount).val ∧ (100 : Amount) < 101 ∧
      (100 : Amount).toDecimal .minutes = ⟨167, 2⟩ ∧
      ((-100 : Amount).toDecimal .minutes).value = -((100 : Amount).toDecimal .minutes).value ∧
      ((100 : Amount).toDecimal .minutes).value < ((101 : Amount).toDecimal .minutes).value := by
  have above : -0x8000000000000000 < (100 : Amount).val := by decide
  have less : (100 : Amount) < 101 := by decide
  obtain ⟨-, -, -, opposite, rises, -⟩ := toDecimal_faithful 100 101
  exact ⟨above, less, by decide, opposite .minutes above, rises .minutes less⟩

end Amount

end Entitlement
