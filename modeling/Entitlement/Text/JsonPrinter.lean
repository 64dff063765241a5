import Entitlement.Text.Json

/-!
Writing JSON: in one line without spaces, or laid out over lines with two spaces a level. Control
characters, quotes and backslashes are escaped, all other characters stand for themselves.
-/

namespace Entitlement.Text.Json

def hexDigit (n : Nat) : Char :=
  if n < 10 then Char.ofNat (n + 48) else Char.ofNat (n + 87)

def escaped (c : Char) : List Char :=
  match c.toNat with
  | 0x22 => ['\\', '"']
  | 0x5C => ['\\', '\\']
  | 0x08 => ['\\', 'b']
  | 0x09 => ['\\', 't']
  | 0x0A => ['\\', 'n']
  | 0x0C => ['\\', 'f']
  | 0x0D => ['\\', 'r']
  | n => if n < 0x20 then ['\\', 'u', '0', '0', hexDigit (n / 16), hexDigit (n % 16)] else [c]

def quoted (s : String) : String :=
  String.ofList ('"' :: s.toList.flatMap escaped ++ ['"'])

/-- A number that is no integer. A point or an exponent marks it as such. -/
def decimalText (negative : Bool) (numeral : Numeral) : String :=
  (if negative then "-" else "") ++ String.ofList numeral.whole ++
    (if numeral.fraction.isEmpty then "" else "." ++ String.ofList numeral.fraction) ++
    if numeral.fraction.isEmpty || numeral.exponent ≠ 0 then s!"e{numeral.exponent}" else ""

def brackets (first last : Char) (inside : String) : String :=
  (String.singleton first ++ inside).push last

mutual

/-- One line, no spaces. -/
def compact : Json → String
  | null => "null"
  | bool b => toString b
  | int n => toString n
  | decimal negative numeral => decimalText negative numeral
  | str s => quoted s
  | arr items => brackets '[' ']' (",".intercalate (compactItems items))
  | obj fields => brackets '\x7b' '\x7d' (",".intercalate (compactFields fields))
  | unreadable => "null"

def compactItems : List Json → List String
  | [] => []
  | item :: rest => compact item :: compactItems rest

def compactFields : List (FieldName × Json) → List String
  | [] => []
  | (name, value) :: rest => (quoted name.text ++ ":" ++ compact value) :: compactFields rest

end

def lineAt (level : Nat) (s : String) : String :=
  "\n" ++ String.ofList (List.replicate (2 * level) ' ') ++ s

/-- Items on lines of their own, one level in; nothing at all between empty brackets. -/
def block (level : Nat) (items : List String) : String :=
  if items.isEmpty then ""
  else ",".intercalate (items.map (lineAt (level + 1))) ++ lineAt level ""

mutual

/-- Laid out over lines, two spaces a level. -/
def prettyAt (level : Nat) : Json → String
  | null => "null"
  | bool b => toString b
  | int n => toString n
  | decimal negative numeral => decimalText negative numeral
  | str s => quoted s
  | arr items => brackets '[' ']' (block level (prettyItems (level + 1) items))
  | obj fields => brackets '\x7b' '\x7d' (block level (prettyFields (level + 1) fields))
  | unreadable => "null"

def prettyItems (level : Nat) : List Json → List String
  | [] => []
  | item :: rest => prettyAt level item :: prettyItems level rest

def prettyFields (level : Nat) : List (FieldName × Json) → List String
  | [] => []
  | (name, value) :: rest =>
    (quoted name.text ++ ": " ++ prettyAt level value) :: prettyFields level rest

end

def pretty (json : Json) : String :=
  prettyAt 0 json

end Entitlement.Text.Json
