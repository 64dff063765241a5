import Entitlement.Document.Rules
import Entitlement.Recap.Tables

/-!
Scan reports, balances and repairs as JSON.
-/

namespace Entitlement

open Text

namespace Document

instance : Readable Balance where
  read? json := do
    let [category, first, last, unit, limit, taken, remaining, residual, compromised] ← slots?
      ["category", "begin", "end", "amount_type", "takable_total", "taken_total", "remaining",
        "completion_residual", "compromised"] json
      | none
    return ⟨← category.required, ← first.required, ← last.required, ← unit.optional,
      ← limit.required, ← taken.required, ← remaining.optional, ← residual.optional,
      ← compromised.required⟩

instance : Writable Balance where
  write b := .obj [("category", write b.category), ("begin", write b.first), ("end", write b.last),
    ("amount_type", write b.unit), ("takable_total", write b.limit), ("taken_total", write b.taken),
    ("remaining", write b.remaining), ("completion_residual", write b.completionResidual),
    ("compromised", write b.compromised)]

instance : Writable Decimal := ⟨fun d => .str d.toText⟩

instance : Writable BalanceRow where
  write r := .obj [("category", write r.category), ("begin", write r.first), ("end", write r.last),
    ("unit", write r.unit), ("takable", write r.limit), ("taken", write r.taken),
    ("remaining", write r.remaining), ("completion_residual", write r.completionResidual),
    ("compromised", write r.compromised)]

instance : Writable Report where
  write r := .obj [("person", write r.person), ("from", write r.start),
    ("scanned_absences", write r.scannedAbsences), ("chains_built", write r.chainsBuilt),
    ("problems", write r.problems), ("critical_errors", write r.critical),
    ("replacings_inserted", write r.inserted), ("replacings_deleted", write r.deleted),
    ("skipped_removed", write r.skipped), ("troubles_added", write r.troubles.added),
    ("troubles_removed", write r.troubles.removed), ("periods", write r.balances)]

instance : Readable Removal where
  read? json := do
    let [category, absence, code, date] ← slots? ["category", "absence", "code", "date"] json | none
    return ⟨← category.required, ← absence.required, ← code.required, ← date.required⟩

instance : Writable Removal where
  write d := .obj [("category", write d.category), ("absence", write d.absence),
    ("code", write d.code), ("date", write d.date)]

instance : Readable Addition where
  read? json := do
    let [category, date, code, kind] ← slots? ["category", "date", "code", "justified_kind"] json
      | none
    return ⟨← category.required, ← date.required, ← code.required, ← kind.required⟩

instance : Writable Addition where
  write i := .obj [("category", write i.category), ("date", write i.date), ("code", write i.code),
    ("justified_kind", write i.kind)]

instance : Readable Repair where
  read? json := do
    let [person, removals, additions] ← slots? ["person", "deletions", "insertions"] json | none
    return ⟨← person.required, ← removals.required, ← additions.required⟩

instance : Writable Repair where
  write p := .obj [("person", write p.person), ("deletions", write p.removals),
    ("insertions", write p.additions)]

instance : Writable RepairEffect where
  write e := .obj [("deleted", write e.deleted), ("skipped", write e.skipped),
    ("inserted", write e.inserted)]

end Document

end Entitlement
