/-!
Decimal numerals and the range of doubles. A numeral is turned into a double by its leading digits, as
many as 64 bits hold, and one power of ten; each of the two is rounded to the nearest double, and so
is their product. A numeral is finite if the product is.
-/

namespace Entitlement.Text

/-- The value of an ASCII digit. -/
def digitValue (c : Char) : Nat :=
  c.toNat - '0'.toNat

/-- The number that ASCII digits write. -/
def digitsValue (cs : List Char) : Nat :=
  cs.foldl (fun n c => n * 10 + digitValue c) 0

/-- A numeral without its sign: the digits before and behind the point, and the exponent of ten. -/
structure Numeral where
  whole : List Char
  fraction : List Char
  exponent : Int
deriving DecidableEq

/-- The natural number nearest to `n` that a double without bound on its exponent holds. Of two equally
near ones the even one counts. -/
def nearestDouble (n : Nat) : Nat :=
  let unit := Nat.pow 2 (n.log2 - 52)
  let steps := n / unit
  let rest := n % unit
  if 2 * rest < unit || (2 * rest = unit && steps % 2 = 0) then steps * unit
  else (steps + 1) * unit

namespace Numeral

/-- Appends digits to a number while it stays below `2 ^ 64`, and counts the digits left over. -/
def appendDigits (n : Nat) : List Char → Nat × Nat
  | [] => (n, 0)
  | c :: rest =>
    let next := n * 10 + digitValue c
    if next < UInt64.size then appendDigits next rest else (n, rest.length + 1)

/-- The leading digits as a number, and the exponent of ten that belongs to it. -/
def leading (numeral : Numeral) : Nat × Int :=
  let (whole, raised) := appendDigits 0 numeral.whole
  let (digits, dropped) := appendDigits whole numeral.fraction
  (digits, numeral.exponent + raised - (numeral.fraction.length - dropped : Nat))

/-- Whether the double is finite. The first number to round to infinity lies half a step above the
greatest double. -/
def isFinite (numeral : Numeral) : Bool :=
  let (digits, exponent) := numeral.leading
  digits = 0 || (exponent ≤ 308 &&
    nearestDouble digits * nearestDouble (Nat.pow 10 exponent.toNat) <
      Nat.pow 2 1024 - Nat.pow 2 970)

end Numeral

end Entitlement.Text
