import Entitlement.Amount.Basic

/-!
Amounts as decimal numbers of days or hours. Hundredths of a day are shown as they are, always with
two places; minutes become whole hours, or else hours rounded to two places.
-/

namespace Entitlement

/-- The number `coefficient / 10 ^ places`, written with that many places. -/
structure Decimal where
  coefficient : Int
  places : Nat
deriving DecidableEq

namespace Decimal

/-- Sign, whole part and exactly `places` digits behind the point. -/
def toText (d : Decimal) : String :=
  let digits := Nat.toDigits 10 d.coefficient.natAbs
  let digits := List.replicate (d.places + 1 - digits.length) '0' ++ digits
  let whole := digits.take (digits.length - d.places)
  let part := digits.drop (digits.length - d.places)
  let sign := if d.coefficient < 0 then ['-'] else []
  String.ofList (sign ++ whole ++ if part.isEmpty then [] else '.' :: part)

instance : ToString Decimal := ⟨toText⟩

end Decimal

namespace Amount

/-- The quotient rounded to the nearest integer, a tie to the even one. -/
def roundQuotient (numerator : Int) (denominator : Nat) : Int :=
  let floor := numerator / denominator
  let twice := 2 * (numerator % denominator)
  if twice < denominator ∨ (twice = denominator ∧ floor % 2 = 0) then floor else floor + 1

/-- Hundredths of a day as days, minutes as hours: without places if they are whole, in hundredths if
not. -/
def toDecimal (amount : Amount) : AmountUnit → Decimal
  | .units => ⟨amount.val, 2⟩
  | .minutes =>
    if amount.val % 60 = 0 then ⟨amount.val / 60, 0⟩
    else ⟨roundQuotient (amount.val * 100) 60, 2⟩

end Amount

/-- The name of the unit in which decimals are shown. -/
def AmountUnit.label : AmountUnit → String
  | .units => "days"
  | .minutes => "hours"

end Entitlement
