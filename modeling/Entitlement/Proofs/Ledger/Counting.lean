import Entitlement.Proofs.Ledger.Days
import Entitlement.Proofs.Scan.Reconciling

/-!
The count of writes. Every action on a ledger adds to it what the action reports to have written, and one for
each attendance day that is new; and no action loses a day or moves it.
-/

namespace Entitlement

namespace Ledger

/-- What a number of writes does to the days of a ledger and to its count: every day stays as it is, and the
count goes up by the writes and the new days. -/
structure Counts (writes : Nat) (before after : Ledger) : Prop where
  days {person : PersonId} {date : Date} {day : DayId} :
    before.day? person date = some day → after.day? person date = some day
  mutations : after.mutations + before.days.size = before.mutations + writes + after.days.size

theorem Counts.nothing (ledger : Ledger) : Counts 0 ledger ledger :=
  ⟨id, rfl⟩

/-- Writes that leave the days alone. -/
theorem Counts.of_days {before after : Ledger} {writes : Nat} (same : after.days = before.days)
    (count : after.mutations = before.mutations + writes) : Counts writes before after where
  days found := by
    rw [day?, same]
    exact found
  mutations := by rw [count, same]

theorem Counts.trans {first second third : Ledger} {writes writes' : Nat}
    (before : Counts writes first second) (after : Counts writes' second third) :
    Counts (writes + writes') first third where
  days found := after.days (before.days found)
  mutations := by
    have early := before.mutations
    have late := after.mutations
    omega

def Posts (ledger : Ledger) (record : Absence) : Prop :=
  ∃ day, record.day = some day ∧ ledger.day? record.person record.date = some day

theorem Posts.later {before after : Ledger} {writes : Nat} (counts : Counts writes before after)
    {record : Absence} (h : before.Posts record) : after.Posts record := by
  obtain ⟨day, stands, found⟩ := h
  exact ⟨day, stands, counts.days found⟩

theorem putDay_counts {ledger : Ledger} {person : PersonId} {date : Date}
    (absent : ledger.day? person date = none) : Counts 0 ledger (ledger.putDay person date).2 where
  days {person' date' day} found := by
    have other : (person', date') ≠ (person, date) := by
      rintro same
      rw [day?, same] at found
      cases absent.symm.trans found
    rw [day?, putDay, OrderedMap.get?_insert, if_neg other]
    exact found
  mutations := by
    have grown := (OrderedMap.values_insert_perm absent ledger.freshId).length_eq
    rw [OrderedMap.size_eq_values, OrderedMap.size_eq_values, putDay, grown, List.length_cons]
    show ledger.mutations + 1 + _ = _
    omega

theorem ensureDay_counts {ledger after : Ledger} {person : PersonId} {date : Date} {day : DayId}
    (h : ensureDay person date ledger = .ok day after) : Counts 0 ledger after := by
  rcases ensureDay_ok_iff.1 h with ⟨-, rfl⟩ | ⟨absent, -, -, rfl⟩
  · exact .nothing after
  · exact putDay_counts absent

/-- A replacing record is one write, beside that of its day. -/
theorem addReplacing_counts {ledger after : Ledger} {person : PersonId} {addition : Addition}
    {record : Absence} (h : addReplacing person addition ledger = .ok record after) :
    Counts 1 ledger after ∧ record.minutes = none ∧ after.Posts record := by
  obtain ⟨day, between, ensured, placed⟩ := LedgerAction.bind_ok h
  obtain ⟨-, -, rfl, rfl⟩ := addAbsence_ok_iff.1 placed
  have found := ensureDay_found ensured
  refine ⟨?_, rfl, day, rfl, found⟩
  rw [← Nat.zero_add 1]
  exact (ensureDay_counts ensured).trans (.of_days rfl rfl)

theorem addAll_counts {ledger after : Ledger} {person : PersonId} {additions : List Addition}
    {inserted : List Absence} (h : addAll person additions ledger = .ok inserted after) :
    Counts inserted.length ledger after ∧ ∀ a ∈ inserted, a.minutes = none ∧ after.Posts a := by
  induction additions generalizing ledger inserted with
  | nil =>
    cases h
    exact ⟨.nothing _, fun a ha => absurd ha List.not_mem_nil⟩
  | cons addition rest ih =>
    obtain ⟨record, between, first, h⟩ := LedgerAction.bind_ok h
    obtain ⟨later, last, second, h⟩ := LedgerAction.bind_ok h
    cases h
    obtain ⟨counts, minutes, posts⟩ := addReplacing_counts first
    obtain ⟨counts', made⟩ := ih second
    refine ⟨?_, fun a ha => ?_⟩
    · rw [List.length_cons, Nat.add_comm]
      exact counts.trans counts'
    · rcases List.mem_cons.1 ha with rfl | ha
      · exact ⟨minutes, posts.later counts'⟩
      · exact made a ha

theorem removeAbsence_counts (ledger : Ledger) (id : AbsenceId) :
    Counts (ledger.removeAbsence id).1.toNat ledger (ledger.removeAbsence id).2 := by
  unfold removeAbsence
  split
  · exact .of_days rfl rfl
  · exact .nothing ledger

theorem removeAll_counts (ledger : Ledger) (ids : List AbsenceId) :
    Counts (ledger.removeAll ids).1.length ledger (ledger.removeAll ids).2.2 := by
  induction ids generalizing ledger with
  | nil => exact .nothing ledger
  | cons id rest ih =>
    have both := (ledger.removeAbsence_counts id).trans (ih (ledger.removeAbsence id).2)
    simp only [removeAll]
    split
    · next found =>
      rw [found, Bool.toNat_true, Nat.add_comm] at both
      exact both
    · next gone =>
      rw [Bool.not_eq_true] at gone
      rw [gone, Bool.toNat_false, Nat.zero_add] at both
      exact both

/-- A repair counts the records that it deletes and those that it writes; these have no minutes and stand on
the attendance days of their dates. -/
theorem carryOut_counts {ledger after : Ledger} {repair : Repair} {effect : RepairEffect}
    (h : carryOut repair ledger = .ok effect after) :
    Counts (effect.deleted.length + effect.inserted.length) ledger after ∧
      ∀ a ∈ effect.inserted, a.minutes = none ∧ after.Posts a := by
  obtain ⟨deleted, -, added⟩ := carryOut_steps h
  obtain ⟨counts, made⟩ := addAll_counts added
  rw [deleted]
  exact ⟨(ledger.removeAll_counts _).trans counts, made⟩

theorem annotateAll_counts {ledger after : Ledger} {absence : AbsenceId} {problems : List Problem}
    (h : annotateAll absence problems ledger = .ok () after) : Counts problems.length ledger after := by
  induction problems generalizing ledger with
  | nil =>
    cases h
    exact .nothing _
  | cons problem rest ih =>
    obtain ⟨trouble, between, first, h⟩ := LedgerAction.bind_ok h
    have one : Counts 1 ledger between := by
      obtain ⟨-, -, -, rfl⟩ := annotate_ok_iff.1 first
      exact .of_days rfl rfl
    rw [List.length_cons, Nat.add_comm]
    exact one.trans (ih h)

theorem removeTroubles_counts (ledger : Ledger) (ids : List TroubleId) :
    Counts (ledger.removeTroubles ids).1 ledger (ledger.removeTroubles ids).2 := by
  induction ids generalizing ledger with
  | nil => exact .nothing ledger
  | cons id rest ih =>
    have one : Counts (ledger.removeTrouble id).1.toNat ledger (ledger.removeTrouble id).2 := by
      unfold removeTrouble
      split
      · exact .of_days rfl rfl
      · exact .nothing ledger
    have both := one.trans (ih (ledger.removeTrouble id).2)
    simp only [removeTroubles]
    split
    · next found =>
      rw [found, Bool.toNat_true, Nat.add_comm] at both
      exact both
    · next gone =>
      rw [Bool.not_eq_true] at gone
      rw [gone, Bool.toNat_false, Nat.zero_add] at both
      exact both

theorem reconcileRecord_counts {ledger after : Ledger} {removed : OrderedSet AbsenceId}
    {wanted : OrderedSet Problem} {absence : AbsenceId} {count : TroubleCount}
    (h : reconcileRecord removed wanted absence ledger = .ok count after) :
    Counts (count.added + count.removed) ledger after := by
  rcases reconcileRecord_cases h with ⟨-, rfl, rfl⟩ | ⟨-, -, stale, missing, -, -, annotated, rfl⟩
  · exact .nothing after
  · rw [Nat.add_comm]
    exact (ledger.removeTroubles_counts stale).trans (annotateAll_counts annotated)

/-- Reconciling counts the annotations that it writes and those that it deletes. -/
theorem reconcile_counts {ledger after : Ledger} {removed : OrderedSet AbsenceId} {findings : Findings}
    {ids : List AbsenceId} {count : TroubleCount}
    (h : reconcile removed findings ids ledger = .ok count after) :
    Counts (count.added + count.removed) ledger after := by
  induction ids generalizing ledger count with
  | nil =>
    cases h
    exact .nothing _
  | cons id rest ih =>
    obtain ⟨first, between, one, h⟩ := LedgerAction.bind_ok h
    obtain ⟨others, last, later, h⟩ := LedgerAction.bind_ok h
    cases h
    have both := (reconcileRecord_counts one).trans (ih later)
    show Counts (first.added + others.added + (first.removed + others.removed)) ledger _
    rw [Nat.add_add_add_comm]
    exact both

theorem removeTroubles_none {ledger : Ledger} {ids : List TroubleId}
    (none : (ledger.removeTroubles ids).1 = 0) : (ledger.removeTroubles ids).2 = ledger := by
  induction ids generalizing ledger with
  | nil => rfl
  | cons id rest ih =>
    simp only [removeTroubles] at none ⊢
    split at none
    · cases none
    · next gone =>
      have unchanged : (ledger.removeTrouble id).2 = ledger := by
        unfold removeTrouble at gone ⊢
        split
        · next here => exact absurd rfl (if_pos here ▸ gone)
        · rfl
      exact (ih none).trans unchanged

/-- Reconciling that has written no annotation and deleted none leaves the ledger as it was. -/
theorem reconcile_none {ledger after : Ledger} {removed : OrderedSet AbsenceId} {findings : Findings}
    {ids : List AbsenceId} {count : TroubleCount}
    (h : reconcile removed findings ids ledger = .ok count after) (added : count.added = 0)
    (deleted : count.removed = 0) : after = ledger := by
  induction ids generalizing ledger count with
  | nil =>
    cases h
    rfl
  | cons id rest ih =>
    obtain ⟨first, between, one, h⟩ := LedgerAction.bind_ok h
    obtain ⟨others, last, later, h⟩ := LedgerAction.bind_ok h
    cases h
    obtain ⟨firstAdded, othersAdded⟩ := Nat.add_eq_zero_iff.1 added
    obtain ⟨firstDeleted, othersDeleted⟩ := Nat.add_eq_zero_iff.1 deleted
    apply (ih later othersAdded othersDeleted).trans
    rcases reconcileRecord_cases one with ⟨-, unchanged, -⟩ | ⟨-, -, stale, missing, -, -, annotated, rfl⟩
    · exact unchanged
    · obtain rfl := List.length_eq_zero_iff.1 firstAdded
      cases annotated
      exact removeTroubles_none firstDeleted

end Ledger

end Entitlement
