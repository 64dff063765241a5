/-!
Amounts: signed 64-bit counts of hundredths of a day or of minutes. Sums and differences stop at the
ends of the range instead of wrapping around, and a result computed exactly becomes an amount only if
it fits.
-/

namespace Entitlement

/-- The unit of an amount. Days are counted in hundredths. -/
inductive AmountUnit where
  | units
  | minutes
deriving DecidableEq, Repr

/-- A signed 64-bit count. -/
structure Amount where
  val : Int
  lower : -0x8000000000000000 ≤ val
  upper : val < 0x8000000000000000
deriving DecidableEq

namespace Amount

theorem ext {a b : Amount} (h : a.val = b.val) : a = b := by
  cases a
  cases b
  simp_all

/-- The amount nearest to an integer. -/
def clamp (n : Int) : Amount :=
  ⟨max (-0x8000000000000000) (min n 0x7fffffffffffffff), by omega, by omega⟩

/-- The amount equal to an integer, if it fits. -/
def ofInt? (n : Int) : Option Amount :=
  if h : -0x8000000000000000 ≤ n ∧ n < 0x8000000000000000 then some ⟨n, h.1, h.2⟩ else none

instance (n : Nat) : OfNat Amount n := ⟨clamp n⟩

instance : Inhabited Amount := ⟨0⟩

instance : LE Amount := ⟨fun a b => a.val ≤ b.val⟩

instance : LT Amount := ⟨fun a b => a.val < b.val⟩

instance (a b : Amount) : Decidable (a ≤ b) := inferInstanceAs (Decidable (a.val ≤ b.val))

instance (a b : Amount) : Decidable (a < b) := inferInstanceAs (Decidable (a.val < b.val))

instance : Max Amount := maxOfLe

/-- The exact sum, or the end of the range it passes. -/
instance : Add Amount := ⟨fun a b => clamp (a.val + b.val)⟩

/-- The exact difference, or the end of the range it passes. -/
instance : Sub Amount := ⟨fun a b => clamp (a.val - b.val)⟩

instance : Neg Amount := ⟨fun a => clamp (-a.val)⟩

instance : ToString Amount := ⟨fun a => toString a.val⟩

theorem le_def {a b : Amount} : a ≤ b ↔ a.val ≤ b.val := Iff.rfl

theorem lt_def {a b : Amount} : a < b ↔ a.val < b.val := Iff.rfl

theorem clamp_val (n : Int) : (clamp n).val = max (-0x8000000000000000) (min n 0x7fffffffffffffff) := rfl

theorem clamp_val_of_fits {n : Int} (lower : -0x8000000000000000 ≤ n) (upper : n < 0x8000000000000000) :
    (clamp n).val = n := by
  rw [clamp_val]
  omega

theorem add_val (a b : Amount) : (a + b).val = max (-0x8000000000000000) (min (a.val + b.val) 0x7fffffffffffffff) :=
  rfl

theorem sub_val (a b : Amount) : (a - b).val = max (-0x8000000000000000) (min (a.val - b.val) 0x7fffffffffffffff) :=
  rfl

@[simp] theorem zero_val : (0 : Amount).val = 0 := rfl

theorem ofInt?_eq_some_iff {n : Int} {a : Amount} : ofInt? n = some a ↔ a.val = n := by
  unfold ofInt?
  split
  · constructor
    · rintro ⟨⟩
      rfl
    · exact fun h => congrArg some (ext h.symm)
  · next h =>
    constructor
    · exact fun e => absurd e (by simp)
    · exact fun e => absurd (e ▸ ⟨a.lower, a.upper⟩) h

theorem max_val (a b : Amount) : (max a b).val = max a.val b.val := by
  show (if a ≤ b then b else a).val = _
  split
  · next h =>
    rw [le_def] at h
    omega
  · next h =>
    rw [le_def] at h
    omega

/-- Adds amounts up from zero, stopping at the ends of the range after each one. -/
def sum (l : List Amount) : Amount :=
  l.foldl (· + ·) 0

/-- One full day in hundredths of a day. -/
def day : Amount := 100

/-- Half a day in hundredths of a day. -/
def halfDay : Amount := 50

end Amount

end Entitlement
