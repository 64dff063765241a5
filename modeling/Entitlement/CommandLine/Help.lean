/-!
What the command line says about itself.
-/

namespace Entitlement.CommandLine

def usageText : String :=
  "Usage: absence-scan [OPTIONS] --rules <RULES> --ledger <LEDGER> --person <PERSON> --from <FROM>\n"

/-- The answer to a request for help. -/
def helpText : String :=
  "Check absence entitlements and repair replacing records\n\n" ++ usageText ++ "\nOptions:\n" ++
    "  -r, --rules <RULES>                Rule tree JSON (categories and absence codes)\n" ++
    "  -l, --ledger <LEDGER>              " ++
      "Ledger fixture JSON (absences, troubles, persons, working minutes)\n" ++
    "  -p, --person <PERSON>              Person to scan\n" ++
    "  -f, --from <FROM>                  First date to scan (YYYY-MM-DD)\n" ++
    "      --troubles-csv <TROUBLES_CSV>  Write detected troubles as CSV\n" ++
    "      --periods-csv <PERIODS_CSV>    Write period balances as CSV\n" ++
    "  -o, --output <OUTPUT>              Write the updated ledger back as JSON\n" ++
    "      --json                         Print the report as JSON instead of a summary\n" ++
    "  -h, --help                         Print help\n"

end Entitlement.CommandLine
