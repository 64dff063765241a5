import Entitlement.Text.Numeral

/-!
JSON values as they stand in a text: objects keep their fields in order and with repeats, integers
are exact, and other numbers keep their digits. A text may also hold what no value stands for: a
string, or a field name, with half of a surrogate pair; a number out of range; brackets nested too
deep. Such a place may be skipped but not read.
-/

namespace Entitlement.Text

/-- The name of a field, and whether an escape was used to write it. -/
structure FieldName where
  text : String
  escaped : Bool
deriving DecidableEq

/-- A text names a field without escapes. -/
instance : Coe String FieldName := ⟨fun text => ⟨text, false⟩⟩

inductive Json where
  | null
  | bool (value : Bool)
  | int (value : Int)
  /-- A number with a fraction or an exponent, or a negative zero. -/
  | decimal (negative : Bool) (numeral : Numeral)
  | str (value : String)
  | arr (items : List Json)
  | obj (fields : List (FieldName × Json))
  | unreadable

namespace Json

/-- The value of the last field of an object with a name. -/
def lastField? (name : String) (fields : List (FieldName × Json)) : Option Json :=
  (fields.filter fun f => f.1.text = name).getLast?.map (·.2)

/-- The value of a field of an object, `none` where there is no such field. -/
def field? (json : Json) (name : String) : Option Json :=
  match json with
  | obj fields => lastField? name fields
  | _ => none

end Json

end Entitlement.Text
