import Entitlement.Proofs.Ledger.Loading
import Entitlement.Proofs.Ordered.Filling

/-!
Documents that are loaded and saved again, and ledgers that are saved and loaded again. A document comes back with
the last entry of each key, sorted, and from then on stays as it is. A ledger comes back with the same tables,
whatever was done to it: every entry stands under the key it is saved with.
-/

namespace Entitlement

open Ordered

def AttendanceDay.slot (day : AttendanceDay) : PersonId × Date :=
  (day.person, day.date)

namespace LedgerDocument

def resaved (document : LedgerDocument) : LedgerDocument :=
  (Ledger.ofDocument document).toDocument document

/-- A document holds the last record and the last annotation of each identifier and the last attendance day of
each person and date of another, in the order of these, and has its persons and working minutes. -/
structure Condenses (document saved : LedgerDocument) : Prop where
  absences : KeepsLast (·.id) document.absences saved.absences
  troubles : KeepsLast (·.id) document.troubles saved.troubles
  days : KeepsLast AttendanceDay.slot document.days saved.days
  workingMinutes : saved.workingMinutes = document.workingMinutes
  persons : saved.persons = document.persons

structure IsSorted (document : LedgerDocument) : Prop where
  absences : document.absences.Pairwise fun a b => a.id < b.id
  troubles : document.troubles.Pairwise fun t u => t.id < u.id
  days : document.days.Pairwise fun c d => before c.slot d.slot = true

theorem condenses_resaved (document : LedgerDocument) : document.Condenses document.resaved where
  absences := OrderedMap.keepsLast_entries (fun a => (a.id, a)) (fun _ => rfl) document.absences
  troubles := OrderedMap.keepsLast_entries (fun t => (t.id, t)) (fun _ => rfl) document.troubles
  days := OrderedMap.keepsLast_entries (fun d => (d.slot, d.id)) (fun _ => rfl) document.days
  workingMinutes := rfl
  persons := rfl

theorem Condenses.isSorted {document saved : LedgerDocument} (condenses : document.Condenses saved) :
    saved.IsSorted where
  absences := condenses.absences.sorted.imp of_decide_eq_true
  troubles := condenses.troubles.sorted.imp of_decide_eq_true
  days := condenses.days.sorted

/-- Only sorted documents come back as they are. -/
theorem resaved_eq_iff (document : LedgerDocument) : document.resaved = document ↔ document.IsSorted := by
  have condenses := document.condenses_resaved
  constructor
  · exact fun same => same ▸ condenses.isSorted
  · intro sorted
    have absences := condenses.absences.eq_source_iff.2 (sorted.absences.imp decide_eq_true)
    have troubles := condenses.troubles.eq_source_iff.2 (sorted.troubles.imp decide_eq_true)
    have days := condenses.days.eq_source_iff.2 sorted.days
    cases document
    simp only [resaved, Ledger.toDocument, mk.injEq, and_true] at absences troubles days ⊢
    exact ⟨absences, troubles, days⟩

end LedgerDocument

namespace Ledger

/-- What is done to a ledger: a script of operations and transactions, or a record put in under an identifier that
it has already. -/
inductive Change where
  | follow (script : Script)
  | put (record : Absence)

def Change.run : Change → Ledger → Ledger
  | .follow script, ledger => script.run ledger
  | .put record, ledger => leftBy (Ledger.putAbsence record) ledger

def changedBy (ledger : Ledger) (changes : List Change) : Ledger :=
  changes.foldl (fun ledger change => change.run ledger) ledger

/-- A record put into a ledger stands under its own identifier, and the next one is above it. -/
theorem Numbered.putAbsence {ledger after : Ledger} (numbered : ledger.Numbered) {record : Absence}
    (put : Ledger.putAbsence record ledger = .ok () after) : after.Numbered := by
  unfold Ledger.putAbsence at put
  split at put
  · cases put
    have later : ledger.nextId ≤ max ledger.nextId (record.id + 1) := Nat.le_max_left _ _
    have next : record.id < max ledger.nextId (record.id + 1) :=
      Nat.lt_of_lt_of_le (Nat.lt_succ_self _) (Nat.le_max_right _ _)
    have found {id : AbsenceId} {a : Absence} (h : (ledger.absences.insert record.id record).get? id = some a) :
        (id = record.id ∧ a = record) ∨ ledger.record? id = some a := by
      rw [OrderedMap.get?_insert] at h
      split at h
      · next here => exact .inl ⟨here, (Option.some.inj h).symm⟩
      · exact .inr h
    refine .of_days ⟨fun h => ?_, fun h => ?_⟩ (numbered.tagged.fewer later fun _ _ h => h) fun day used => ?_
    · rcases found h with ⟨rfl, rfl⟩ | old
      · rfl
      · exact numbered.sound.keyed old
    · rcases found h with ⟨rfl, rfl⟩ | old
      · exact next
      · exact Nat.lt_of_lt_of_le (numbered.sound.below old) later
    · exact Nat.lt_of_lt_of_le (numbered.below (List.mem_append_right _ used)) later
  · cases put

theorem Numbered.leftBy_putAbsence {ledger : Ledger} (numbered : ledger.Numbered) (record : Absence) :
    (leftBy (Ledger.putAbsence record) ledger).Numbered := by
  unfold leftBy
  split
  · next put => exact numbered.putAbsence put
  · next refused =>
    unfold Ledger.putAbsence at refused
    split at refused
    · cases refused
    · cases refused
  · exact numbered

theorem Numbered.changedBy {ledger : Ledger} (numbered : ledger.Numbered) (changes : List Change) :
    (ledger.changedBy changes).Numbered := by
  induction changes generalizing ledger with
  | nil => exact numbered
  | cons change rest ih =>
    refine ih (?_ : (change.run ledger).Numbered)
    cases change with
    | follow script => exact script.run_keeps Numbered.wrote numbered
    | put record => exact numbered.leftBy_putAbsence record

/-- A ledger whose entries stand under their keys is loaded again with the same tables. -/
theorem Numbered.sameTables {ledger : Ledger} (numbered : ledger.Numbered) (document : LedgerDocument) :
    SameTables ledger (ofDocument (ledger.toDocument document)) := by
  have records : ledger.records.map (fun a => (a.id, a)) = ledger.absences.toList := by
    rw [Ledger.records, OrderedMap.values, List.map_map]
    refine (List.map_congr_left fun e he => ?_).trans (List.map_id _)
    exact Prod.ext (numbered.sound.keyed (OrderedMap.get?_eq_some_iff.2 he)) rfl
  have annotations : ledger.annotations.map (fun t => (t.id, t)) = ledger.troubles.toList := by
    rw [Ledger.annotations, OrderedMap.values, List.map_map]
    refine (List.map_congr_left fun e he => ?_).trans (List.map_id _)
    exact Prod.ext (numbered.tagged.keyed (OrderedMap.get?_eq_some_iff.2 he)) rfl
  refine ⟨?_, ?_, ?_⟩
  · show OrderedMap.ofList (ledger.records.map fun a => (a.id, a)) = _
    rw [records, OrderedMap.ofList_toList]
  · show OrderedMap.ofList (ledger.annotations.map fun t => (t.id, t)) = _
    rw [annotations, OrderedMap.ofList_toList]
  · show OrderedMap.ofList ((ledger.days.toList.map _).map _) = _
    rw [List.map_map]
    exact (congrArg OrderedMap.ofList (List.map_id _)).trans (OrderedMap.ofList_toList _)

/-- Ledgers with the same tables, and so with the same answers to every question about them. -/
structure Matches (ledger other : Ledger) : Prop where
  tables : SameTables ledger other
  absencesIn (person : PersonId) (first last : Date) :
    other.absencesIn person first last = ledger.absencesIn person first last
  troublesOf (absence : AbsenceId) : other.troublesOf absence = ledger.troublesOf absence
  record? (id : AbsenceId) : other.record? id = ledger.record? id
  day? (person : PersonId) (date : Date) : other.day? person date = ledger.day? person date

theorem SameTables.matches {ledger other : Ledger} (same : SameTables ledger other) : ledger.Matches other := by
  have ⟨absences, troubles, days⟩ := same
  refine ⟨same, fun person first last => ?_, fun absence => ?_, fun id => ?_, fun person date => ?_⟩
  · rw [Ledger.absencesIn, absences, Ledger.absencesIn]
  · rw [Ledger.troublesOf, troubles, Ledger.troublesOf]
  · rw [Ledger.record?, absences, Ledger.record?]
  · rw [Ledger.day?, days, Ledger.day?]

/-- A document that is loaded and saved comes back with the last entry of each key, sorted, and nothing else is
lost. Doing it again changes nothing, and only sorted documents without repeated keys are not changed at first. A
ledger that was loaded comes back from saving and loading with the same tables, whatever was done to it. -/
theorem loaded_and_saved (document : LedgerDocument) : document.Condenses document.resaved ∧
    document.resaved.resaved = document.resaved ∧
    (document.resaved = document ↔ document.IsSorted) ∧
    ∀ (changes : List Change) (other : LedgerDocument),
      ((ofDocument document).changedBy changes).Matches
        (ofDocument (((ofDocument document).changedBy changes).toDocument other)) := by
  have condenses := document.condenses_resaved
  refine ⟨condenses, ?_, document.resaved_eq_iff, fun changes other => ?_⟩
  · exact document.resaved.resaved_eq_iff.2 condenses.isSorted
  · have numbered := (numbered_ofDocument document).changedBy changes
    exact (numbered.sameTables other).matches

/-- Of two annotations under one identifier the later is kept, and they come back by identifier. -/
example : LedgerDocument.resaved { LedgerDocument.empty with
      troubles := [⟨2, 7, .limitExceeded⟩, ⟨1, 7, .duplicateCode⟩, ⟨2, 8, .outOfContract⟩] } =
    { LedgerDocument.empty with troubles := [⟨1, 7, .duplicateCode⟩, ⟨2, 8, .outOfContract⟩] } := by
  decide

end Ledger

end Entitlement
