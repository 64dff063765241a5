import Entitlement.Calendar.Date
import Entitlement.Text.Blank
import Entitlement.Text.Numeral

/-!
Dates as text. Printing gives year, month and day joined by dashes, the year in four digits from 0
to 9999 and with a sign outside. Reading is lenient: blanks may stand before each number, before
each dash and at the end, and a sign lifts the limit on the digits of the year.
-/

namespace Entitlement.Date

open Text

/-- Decimal digits of `n`, filled with zeros up to a width. -/
def padded (width n : Nat) : String :=
  let digits := Nat.toDigits 10 n
  String.ofList (List.replicate (width - digits.length) '0' ++ digits)

def yearText (year : Int) : String :=
  if year < 0 then "-" ++ padded 4 year.natAbs
  else if 9999 < year then "+" ++ padded 4 year.natAbs
  else padded 4 year.natAbs

def toText (d : Date) : String :=
  yearText d.year ++ "-" ++ padded 2 d.month ++ "-" ++ padded 2 d.day

instance : ToString Date := ⟨toText⟩

/-- Takes one digit or more off the front, as many as there are up to `most`. -/
def takeNumber (most : Option Nat) (cs : List Char) : Option (Nat × List Char) :=
  let digits := cs.takeWhile Char.isDigit
  let digits := match most with
    | some width => digits.take width
    | none => digits
  if digits.isEmpty then none else some (digitsValue digits, cs.drop digits.length)

def takeYear (cs : List Char) : Option (Int × List Char) :=
  match dropBlanks cs with
  | '-' :: rest => (takeNumber none rest).map fun (n, rest) => (-(n : Int), rest)
  | '+' :: rest => (takeNumber none rest).map fun (n, rest) => ((n : Int), rest)
  | rest => (takeNumber (some 4) rest).map fun (n, rest) => ((n : Int), rest)

def takeDash (cs : List Char) : Option (List Char) :=
  match dropBlanks cs with
  | '-' :: rest => some rest
  | _ => none

def ofText? (s : String) : Option Date := do
  let (year, rest) ← takeYear s.toList
  let rest ← takeDash rest
  let (month, rest) ← takeNumber (some 2) (dropBlanks rest)
  let rest ← takeDash rest
  let (day, rest) ← takeNumber (some 2) (dropBlanks rest)
  if (dropBlanks rest).isEmpty then ofParts? year month day else none

end Entitlement.Date
