import Entitlement.Amount.Decimal
import Entitlement.Calendar.DateText
import Entitlement.Scan.Report
import Entitlement.Text.Csv

/-!
What a scan report shows in tables: a row for each problem of a record, and a row for each period
with its amounts as decimals of days or hours.
-/

namespace Entitlement

open Text

/-- A balance as a table shows it. An unlimited period has no limit and nothing remaining. -/
structure BalanceRow where
  category : CategoryName
  first : String
  last : String
  unit : String
  limit : Option Decimal
  taken : Decimal
  remaining : Option Decimal
  completionResidual : Option Decimal
  compromised : Bool
deriving DecidableEq

def Balance.row (balance : Balance) : BalanceRow :=
  let unit := balance.unit.getD .units
  { category := balance.category
    first := balance.first.toText
    last := balance.last.toText
    unit := unit.label
    limit := if 0 ≤ balance.limit then some (balance.limit.toDecimal unit) else none
    taken := balance.taken.toDecimal unit
    remaining := balance.remaining.map (·.toDecimal unit)
    completionResidual := balance.completionResidual.map (·.toDecimal .minutes)
    compromised := balance.compromised }

namespace BalanceRow

def header : List String :=
  ["category", "begin", "end", "unit", "takable", "taken", "remaining", "completion_residual",
    "compromised"]

def optional (d : Option Decimal) : String :=
  d.elim "" Decimal.toText

def fields (row : BalanceRow) : List String :=
  [row.category, row.first, row.last, row.unit, optional row.limit, row.taken.toText,
    optional row.remaining, optional row.completionResidual, toString row.compromised]

end BalanceRow

namespace Report

/-- Each problem of each record, by record and problem. -/
def problemPairs (report : Report) : List (AbsenceId × Problem) :=
  report.problems.toList.flatMap fun (absence, problems) =>
    problems.toList.map fun problem => (absence, problem)

def problemTable (report : Report) : String :=
  Csv.table ["person", "absence", "problem", "description"] (report.problemPairs.map
    fun (absence, problem) =>
      [toString report.person, toString absence, problem.key, problem.message])

def balanceTable (report : Report) : String :=
  Csv.table BalanceRow.header (report.balances.map fun b => b.row.fields)

end Report

end Entitlement
