import Mathlib.Data.List.Nodup
import Entitlement.Proofs.Ledger.Annotations

/-!
The attendance days of a ledger under the actions on it, and the count of its writes. No action loses a day;
a new one gets an identifier of its own, so the day of a person on a date is always found to be the person's,
and a replacing record can be written on it whatever the ledger holds.
-/

namespace Entitlement

namespace OrderedMap

variable {κ ν : Type} [Ordered κ]

private theorem insertInto_perm {k : κ} {v : ν} {l : List (κ × ν)} (absent : ∀ e ∈ l, e.1 ≠ k) :
    (insertInto k v l).Perm ((k, v) :: l) := by
  induction l with
  | nil => exact .refl _
  | cons e rest ih =>
    have later := ih fun e' he => absent e' (List.mem_cons_of_mem _ he)
    unfold insertInto
    split
    · exact .refl _
    · next above =>
      split
      · exact (later.cons e).trans (.swap _ _ _)
      · next below =>
        have same := Ordered.connected (by simpa using above) (by simpa using below)
        exact absurd same.symm (absent e List.mem_cons_self)

/-- Under a new key the entry comes to those there are. -/
theorem values_insert_perm [DecidableEq κ] {m : OrderedMap κ ν} {k : κ} (absent : m.get? k = none) (v : ν) :
    (m.insert k v).values.Perm (v :: m.values) := by
  apply (insertInto_perm fun e he same => ?_).map
  exact get?_eq_none_iff.1 absent e.2 (same ▸ he)

theorem size_eq_values (m : OrderedMap κ ν) : m.size = m.values.length :=
  (List.length_map _).symm

end OrderedMap

namespace Ledger

/-- Every attendance day has an identifier of its own, below the next one to be given. -/
structure Rostered (ledger : Ledger) : Prop where
  once : ledger.days.values.Nodup
  below {day : DayId} : day ∈ ledger.days.values → day < ledger.nextId

theorem Rostered.of_days {before after : Ledger} (rostered : before.Rostered)
    (same : after.days = before.days) (nextId : before.nextId ≤ after.nextId) : after.Rostered where
  once := same ▸ rostered.once
  below h := Nat.lt_of_lt_of_le (rostered.below (same ▸ h)) nextId

/-- The person of an attendance day is the one whose day it is. -/
theorem Rostered.owner {ledger : Ledger} (rostered : ledger.Rostered) {person : PersonId} {date : Date}
    {day : DayId} (found : ledger.day? person date = some day) : ledger.dayOwner? day = some person := by
  have here := OrderedMap.get?_eq_some_iff.1 found
  unfold dayOwner?
  cases first : ledger.days.toList.find? fun e => e.2 = day with
  | none => exact absurd (List.find?_eq_none.1 first _ here) (by simp)
  | some e =>
    have named : e.2 = day := by simpa using List.find?_some first
    have same : e = ((person, date), day) :=
      List.inj_on_of_nodup_map rostered.once (List.mem_of_find?_eq_some first) here named
    rw [same]
    rfl

/-- A record may refer to any day of its person. -/
theorem Rostered.checkDay {ledger : Ledger} (rostered : ledger.Rostered) {draft : AbsenceDraft} {date : Date}
    {day : DayId} (found : ledger.day? draft.person date = some day) (refers : draft.day = some day) :
    ledger.checkDay draft = .ok () := by
  simp only [Ledger.checkDay, refers, rostered.owner found, if_true, pure, Except.pure]

/-- The day that was looked for is there afterwards. -/
theorem ensureDay_found {ledger after : Ledger} {person : PersonId} {date : Date} {day : DayId}
    (h : ensureDay person date ledger = .ok day after) : after.day? person date = some day := by
  rcases ensureDay_ok_iff.1 h with ⟨found, rfl⟩ | ⟨-, -, rfl, rfl⟩
  · exact found
  · exact OrderedMap.get?_insert.trans (if_pos rfl)

theorem Rostered.putDay {ledger : Ledger} (rostered : ledger.Rostered) {person : PersonId} {date : Date}
    (absent : ledger.day? person date = none) : (ledger.putDay person date).2.Rostered := by
  have days := OrderedMap.values_insert_perm absent ledger.freshId
  have known {day : DayId} (h : day ∈ ledger.days.values) : day < ledger.freshId :=
    Nat.lt_of_lt_of_le (rostered.below h) (Nat.le_max_left _ _)
  refine ⟨days.nodup_iff.2 (List.nodup_cons.2 ⟨fun h => ?_, rostered.once⟩), fun {day} h => ?_⟩
  · exact Nat.lt_irrefl _ (known h)
  · rcases List.mem_cons.1 (days.mem_iff.1 h) with rfl | h
    · exact Nat.lt_succ_self _
    · exact Nat.lt_succ_of_lt (known h)

/-- The day of a person on a date is never refused. -/
theorem Rostered.ensureDay {ledger : Ledger} (rostered : ledger.Rostered) (person : PersonId)
    (date : Date) : (ensureDay person date ledger).Meets
      (fun day after => after.Rostered ∧ after.day? person date = some day) (fun _ => False) := by
  unfold Ledger.ensureDay
  split
  · next found => exact ⟨rostered, found⟩
  · next absent =>
    exact allocating_meets ⟨rostered.putDay absent, OrderedMap.get?_insert.trans (if_pos rfl)⟩

/-- A replacing record is never refused, whoever it is for and on whatever date. -/
theorem Rostered.addReplacing {ledger : Ledger} (rostered : ledger.Rostered) (person : PersonId)
    (addition : Addition) :
    (addReplacing person addition ledger).Meets (fun _ after => after.Rostered) (fun _ => False) := by
  refine (rostered.ensureDay person addition.date).bind fun day between ⟨roster, found⟩ => ?_
  rw [addAbsence_of_checkDay (roster.checkDay found rfl)]
  exact allocating_meets (roster.of_days rfl (Nat.le_succ_of_le (Nat.le_max_left _ _)))

theorem Rostered.addAll {ledger : Ledger} (rostered : ledger.Rostered) (person : PersonId)
    (additions : List Addition) :
    (addAll person additions ledger).Meets (fun _ after => after.Rostered) (fun _ => False) := by
  induction additions generalizing ledger with
  | nil => exact rostered
  | cons addition rest ih =>
    refine (rostered.addReplacing person addition).bind fun record between roster => ?_
    exact (ih roster).bind fun inserted after roster => roster

theorem removeAbsence_days (ledger : Ledger) (id : AbsenceId) :
    (ledger.removeAbsence id).2.days = ledger.days := by
  unfold removeAbsence
  split
  · rfl
  · rfl

theorem removeAll_days (ledger : Ledger) (ids : List AbsenceId) :
    (ledger.removeAll ids).2.2.days = ledger.days := by
  induction ids generalizing ledger with
  | nil => rfl
  | cons id rest ih =>
    have later := (ih (ledger.removeAbsence id).2).trans (removeAbsence_days ledger id)
    simp only [removeAll]
    split
    · exact later
    · exact later

/-- No repair is refused. -/
theorem Rostered.carryOut {ledger : Ledger} (rostered : ledger.Rostered) (repair : Repair) :
    (carryOut repair ledger).Meets (fun _ after => after.Rostered) (fun _ => False) := by
  have roster := rostered.of_days (ledger.removeAll_days (repair.removals.map (·.absence)))
    (Nat.le_of_eq (ledger.removeAll_nextId _).symm)
  have added := roster.addAll repair.person repair.additions
  unfold Ledger.carryOut
  dsimp only
  split
  · trivial
  · next ran => exact added.ok ran
  · next ran => exact added.error ran

/-- The attendance days of a document whose days have different identifiers. -/
theorem rostered_ofDocument {document : LedgerDocument}
    (once : (ofDocument document).days.values.Nodup) : (ofDocument document).Rostered where
  once := once
  below h := Nat.lt_succ_of_le (le_foldl_max 0 (List.mem_append_right _ h))

/-- A record that is there is annotated without a refusal, any number of times. -/
theorem annotateAll_unrefused {ledger : Ledger} {absence : AbsenceId} (held : ledger.holds absence = true)
    (problems : List Problem) :
    (annotateAll absence problems ledger).Meets (fun _ _ => True) (fun _ => False) := by
  induction problems generalizing ledger with
  | nil => trivial
  | cons problem rest ih =>
    have one : (annotate absence problem ledger).Meets (fun _ after => after.holds absence = true)
        (fun _ => False) := by
      rw [annotate_of_holds held]
      exact allocating_meets held
    exact one.bind fun _ _ held => ih held

theorem removeTroubles_absences (ledger : Ledger) (ids : List TroubleId) :
    (ledger.removeTroubles ids).2.absences = ledger.absences := by
  induction ids generalizing ledger with
  | nil => rfl
  | cons id rest ih => exact (ih _).trans (removeTrouble_keeps ledger id).1

/-- Reconciling is never refused: it annotates only records that are there. -/
theorem reconcile_unrefused (ledger : Ledger) (removed : OrderedSet AbsenceId) (findings : Findings)
    (ids : List AbsenceId) :
    (reconcile removed findings ids ledger).Meets (fun _ _ => True) (fun _ => False) := by
  have one (ledger : Ledger) (wanted : OrderedSet Problem) (id : AbsenceId) :
      (reconcileRecord removed wanted id ledger).Meets (fun _ _ => True) (fun _ => False) := by
    unfold reconcileRecord
    split
    · trivial
    · next here =>
      rw [Bool.or_eq_true, not_or, Bool.not_eq_true', Bool.not_eq_false] at here
      dsimp only
      generalize splitTroubles wanted ∅ (ledger.troublesOf id) = parts
      have held := (holds_congr (ledger.removeTroubles_absences parts.2) id).trans here.2
      have annotated := annotateAll_unrefused held
        (wanted.filter fun problem => !parts.1.contains problem).toList
      split
      · trivial
      · next ran => exact annotated.error ran
      · trivial
  induction ids generalizing ledger with
  | nil => trivial
  | cons id rest ih =>
    refine (one ledger (findings.problemsOf id) id).bind fun count between _ => ?_
    exact (ih between).bind fun _ _ _ => trivial

end Ledger

end Entitlement
