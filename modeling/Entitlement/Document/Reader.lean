import Entitlement.Amount.Basic
import Entitlement.Calendar.DateText
import Entitlement.Ordered.Map
import Entitlement.Ordered.Set
import Entitlement.Text.Json

/-!
Values of the domain as JSON. A record is an object of its fields, where unknown fields are skipped
and a known one stands at most once, or an array of its fields in order, where fields at the end may
be missing. A variant without data is its name, or an object that gives its name to null.
-/

namespace Entitlement

open Text

class Readable (α : Type) where
  read? : Json → Option α

class Writable (α : Type) where
  write : α → Json

export Readable (read?)

export Writable (write)

namespace Document

def natBelow (bound : Nat) : Json → Option Nat
  | .int n => if 0 ≤ n ∧ n < bound then some n.toNat else none
  | _ => none

/-- Identifiers and counts have 64 bits. -/
instance : Readable Nat := ⟨natBelow UInt64.size⟩

instance : Writable Nat := ⟨fun n => .int n⟩

instance : Readable Amount where
  read?
    | .int n => Amount.ofInt? n
    | _ => none

instance : Writable Amount := ⟨fun a => .int a.val⟩

instance : Readable String where
  read?
    | .str s => some s
    | _ => none

instance : Writable String := ⟨.str⟩

instance : Readable Bool where
  read?
    | .bool b => some b
    | _ => none

instance : Writable Bool := ⟨.bool⟩

instance : Readable Date where
  read?
    | .str s => Date.ofText? s
    | _ => none

instance : Writable Date := ⟨fun d => .str d.toText⟩

instance {α : Type} [Readable α] : Readable (List α) where
  read?
    | .arr items => items.mapM read?
    | _ => none

instance {α : Type} [Writable α] : Writable (List α) := ⟨fun l => .arr (l.map write)⟩

instance {α : Type} [Readable α] : Readable (Option α) where
  read?
    | .null => some none
    | json => (read? json).map some

instance {α : Type} [Writable α] : Writable (Option α) := ⟨fun o => o.elim .null write⟩

instance {α : Type} [Ordered α] [Readable α] : Readable (OrderedSet α) :=
  ⟨fun json => (read? json).map OrderedSet.ofList⟩

instance {α : Type} [Ordered α] [Writable α] : Writable (OrderedSet α) :=
  ⟨fun s => write s.toList⟩

/-- The name of a variant without data. -/
def variantName? : Json → Option String
  | .str name => some name
  | .obj [(name, .null)] => some name.text
  | _ => none

/-- The variant with a name, among a list of variants with their names. -/
def variant? {α : Type} (names : List (String × α)) (json : Json) : Option α :=
  (variantName? json).bind fun name => names.lookup name

/-- What stands in the place of a field, if anything. -/
abbrev Slot := Option Json

/-- The places of the named fields in an object. -/
def fieldSlots? (names : List String) : Json → Option (List Slot)
  | .obj fields => names.mapM fun name =>
    match fields.filter fun f => f.1.text = name with
    | [] => some none
    | [(_, value)] => some (some value)
    | _ => none
  | _ => none

/-- The places of the named fields in a record. -/
def slots? (names : List String) : Json → Option (List Slot)
  | .arr items =>
    if items.length ≤ names.length then
      some (items.map some ++ List.replicate (names.length - items.length) none)
    else none
  | json => fieldSlots? names json

namespace Slot

variable {α : Type} [Readable α]

/-- The value of a field that must be there. -/
def required (slot : Slot) : Option α :=
  slot.bind read?

/-- The value of a field that may be missing or null. -/
def optional (slot : Slot) : Option (Option α) :=
  slot.elim (some none) read?

/-- The value of a field that may be missing, but not null. -/
def withDefault (value : α) (slot : Slot) : Option α :=
  slot.elim (some value) read?

end Slot

/-- The number written by a plain JSON integer without a sign. None of its digits may be escaped. -/
def idKey? (key : FieldName) : Option Nat :=
  let cs := key.text.toList
  if key.escaped || cs.isEmpty || !cs.all Char.isDigit ||
      (1 < cs.length && cs.head? = some '0') then
    none
  else
    let n := Text.digitsValue cs
    if n < UInt64.size then some n else none

/-- Reads an object as a map; of fields with one key the last stays. -/
def map? {κ ν : Type} [Ordered κ] [Readable ν] (key? : FieldName → Option κ) (json : Json) :
    Option (OrderedMap κ ν) :=
  match json with
  | .obj fields =>
    (fields.mapM fun (name, value) => do return ((← key? name), (← read? value))).map
      OrderedMap.ofList
  | _ => none

instance {ν : Type} [Readable ν] : Readable (OrderedMap Nat ν) := ⟨map? idKey?⟩

instance {ν : Type} [Writable ν] : Writable (OrderedMap Nat ν) :=
  ⟨fun m => .obj (m.toList.map fun (key, value) => (↑(toString key), write value))⟩

end Document

end Entitlement
