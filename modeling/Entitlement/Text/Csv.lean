/-!
Comma separated tables. Lines end in a line feed; a field is put in quotes only if it holds a comma,
a quote or a line break, and a quote inside it is then written twice. A table without rows is empty,
header included.
-/

namespace Entitlement.Text.Csv

def needsQuotes (c : Char) : Bool :=
  c = ',' || c = '"' || c = '\n' || c = '\r'

def doubleQuotes : List Char → List Char
  | [] => []
  | c :: rest => if c = '"' then c :: c :: doubleQuotes rest else c :: doubleQuotes rest

def field (s : String) : String :=
  if s.toList.any needsQuotes then
    String.ofList ('"' :: doubleQuotes s.toList ++ ['"'])
  else s

def line (fields : List String) : String :=
  ",".intercalate (fields.map field) ++ "\n"

def table (header : List String) (rows : List (List String)) : String :=
  if rows.isEmpty then "" else String.join ((header :: rows).map line)

end Entitlement.Text.Csv
