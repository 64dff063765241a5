import Entitlement.Document.Reader
import Entitlement.Ledger.Document

/-!
Absence records, persons and ledger documents as JSON.
-/

namespace Entitlement

open Text

namespace Document

def justificationNames : List (String × Justification) :=
  [("specified_minutes", .specifiedMinutes), ("all_day", .allDay),
    ("assign_all_day", .assignAllDay), ("half_day", .halfDay), ("nothing", .nothing)]

def justificationKey : Justification → String
  | .specifiedMinutes => "specified_minutes"
  | .allDay => "all_day"
  | .assignAllDay => "assign_all_day"
  | .halfDay => "half_day"
  | .nothing => "nothing"

instance : Readable Justification := ⟨variant? justificationNames⟩

instance : Writable Justification := ⟨fun kind => .str (justificationKey kind)⟩

def unitNames : List (String × AmountUnit) :=
  [("units", .units), ("minutes", .minutes)]

def unitKey : AmountUnit → String
  | .units => "units"
  | .minutes => "minutes"

instance : Readable AmountUnit := ⟨variant? unitNames⟩

instance : Writable AmountUnit := ⟨fun unit => .str (unitKey unit)⟩

def problemNames : List (String × Problem) :=
  [("limit_exceeded", .limitExceeded), ("all_day_already_exists", .allDayAlreadyExists),
    ("duplicate_code", .duplicateCode), ("out_of_contract", .outOfContract),
    ("no_child_exist", .noChildExist)]

def problemKey : Problem → String
  | .limitExceeded => "limit_exceeded"
  | .allDayAlreadyExists => "all_day_already_exists"
  | .duplicateCode => "duplicate_code"
  | .outOfContract => "out_of_contract"
  | .noChildExist => "no_child_exist"

instance : Readable Problem := ⟨variant? problemNames⟩

instance : Writable Problem := ⟨fun problem => .str (problemKey problem)⟩

instance : Readable AbsenceDraft where
  read? json := do
    let [person, code, date, kind, minutes, day] ← slots?
      ["person", "code", "date", "justified_kind", "justified_minutes", "attendance_day"] json
      | none
    return ⟨← person.required, ← code.required, ← date.required, ← kind.required,
      ← minutes.optional, ← day.optional⟩

instance : Readable Absence where
  read? json := do
    let [id, person, code, date, kind, minutes, day] ← slots?
      ["id", "person", "code", "date", "justified_kind", "justified_minutes", "attendance_day"] json
      | none
    let id ← id.required
    let record : AbsenceDraft := ⟨← person.required, ← code.required, ← date.required,
      ← kind.required, ← minutes.optional, ← day.optional⟩
    return { record with id := id }

instance : Writable Absence where
  write a := .obj [("id", write a.id), ("person", write a.person), ("code", write a.code),
    ("date", write a.date), ("justified_kind", write a.kind),
    ("justified_minutes", write a.minutes), ("attendance_day", write a.day)]

instance : Readable Trouble where
  read? json := do
    let [id, absence, problem] ← slots? ["id", "absence", "problem"] json | none
    return ⟨← id.required, ← absence.required, ← problem.required⟩

instance : Writable Trouble where
  write t := .obj [("id", write t.id), ("absence", write t.absence), ("problem", write t.problem)]

instance : Readable AttendanceDay where
  read? json := do
    let [id, person, date] ← slots? ["id", "person", "date"] json | none
    return ⟨← id.required, ← person.required, ← date.required⟩

instance : Writable AttendanceDay where
  write d := .obj [("id", write d.id), ("person", write d.person), ("date", write d.date)]

instance : Readable DateRange where
  read? json := do
    let [first, last] ← slots? ["begin", "end"] json | none
    return ⟨← first.required, ← last.required⟩

instance : Readable Contract where
  read? json := do
    let [first, last] ← slots? ["begin", "end"] json | none
    return ⟨← first.required, ← last.optional⟩

instance : Writable Contract where
  write c := .obj [("begin", write c.first), ("end", write c.last)]

instance : Readable Dependent where
  read? json := do
    let [id, birth, excluded] ← slots? ["id", "birth_date", "excluded"] json | none
    return ⟨← id.required, ← birth.required, ← excluded.withDefault false⟩

instance : Writable Dependent where
  write d := .obj [("id", write d.id), ("birth_date", write d.birth),
    ("excluded", write d.excluded)]

instance : Readable Initialization where
  read? json := do
    let [category, date, taken, completion, limit] ← slots?
      ["category", "date", "taken_amount", "completion_amount", "takable_total"] json
      | none
    return ⟨← category.required, ← date.required, ← taken.withDefault 0,
      ← completion.withDefault 0, ← limit.optional⟩

instance : Writable Initialization where
  write i := .obj [("category", write i.category), ("date", write i.date),
    ("taken_amount", write i.taken), ("completion_amount", write i.completion),
    ("takable_total", write i.limit)]

instance : Readable Profile where
  read? json := do
    let [contracts, dependents, initializations] ← slots?
      ["contracts", "dependents", "initializations"] json
      | none
    return ⟨← contracts.withDefault [], ← dependents.withDefault [],
      ← initializations.withDefault []⟩

instance : Writable Profile where
  write p := .obj [("contracts", write p.contracts), ("dependents", write p.dependents),
    ("initializations", write p.initializations)]

instance : Readable LedgerDocument where
  read? json := do
    let [absences, troubles, days, minutes, persons] ← slots?
      ["absences", "troubles", "attendance_days", "working_minutes", "persons"] json
      | none
    return ⟨← absences.withDefault [], ← troubles.withDefault [], ← days.withDefault [],
      ← minutes.withDefault ∅, ← persons.withDefault ∅⟩

instance : Writable LedgerDocument where
  write d := .obj [("absences", write d.absences), ("troubles", write d.troubles),
    ("attendance_days", write d.days), ("working_minutes", write d.workingMinutes),
    ("persons", write d.persons)]

end Document

end Entitlement
