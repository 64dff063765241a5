import Mathlib.Data.List.Forall2
import Entitlement.Proofs.Ledger.Actions
import Entitlement.Proofs.Ordered.Filling
import Entitlement.Proofs.Ordered.Latest
import Entitlement.Replacing.Effect

/-!
The records of a ledger under the actions of a repair. Each record stands under its own identifier,
below the next one to be given; so removing leaves the others in their order, and new records come
after all old ones.
-/

namespace Entitlement

namespace OrderedMap

variable {κ ν : Type} [Ordered κ]

theorem mem_values [DecidableEq κ] {m : OrderedMap κ ν} {v : ν} :
    v ∈ m.values ↔ ∃ k, m.get? k = some v := by
  simp only [values, List.mem_map, Prod.exists, get?_eq_some_iff]
  constructor
  · rintro ⟨k, _, mem, rfl⟩
    exact ⟨k, mem⟩
  · rintro ⟨k, mem⟩
    exact ⟨k, v, mem, rfl⟩

end OrderedMap

namespace Ledger

theorem le_foldl_max {l : List Nat} (start : Nat) {n : Nat} (h : n ∈ l) : n ≤ l.foldl max start := by
  have above (l : List Nat) (start : Nat) : start ≤ l.foldl max start := by
    induction l generalizing start with
    | nil => exact Nat.le_refl _
    | cons m rest ih => exact Nat.le_trans (Nat.le_max_left _ _) (ih _)
  induction l generalizing start with
  | nil => exact absurd h List.not_mem_nil
  | cons m rest ih =>
      rcases List.mem_cons.1 h with rfl | h
      · exact Nat.le_trans (Nat.le_max_right _ _) (above rest _)
      · exact ih _ h

/-- Every record stands under its identifier, and all identifiers of records are below the next. -/
structure Sound (ledger : Ledger) : Prop where
  keyed {id : AbsenceId} {a : Absence} : ledger.record? id = some a → a.id = id
  below {id : AbsenceId} {a : Absence} : ledger.record? id = some a → id < ledger.nextId

def records (ledger : Ledger) : List Absence :=
  ledger.absences.values

theorem mem_records {ledger : Ledger} {a : Absence} :
    a ∈ ledger.records ↔ ∃ id, ledger.record? id = some a :=
  OrderedMap.mem_values

theorem Sound.mem_records_iff {ledger : Ledger} (sound : ledger.Sound) {a : Absence} :
    a ∈ ledger.records ↔ ledger.record? a.id = some a := by
  rw [mem_records]
  constructor
  · rintro ⟨id, h⟩
    rwa [sound.keyed h]
  · exact fun h => ⟨a.id, h⟩

theorem holds_congr {before after : Ledger} (same : after.absences = before.absences)
    (id : AbsenceId) : after.holds id = before.holds id := by
  rw [holds, record?, same]
  rfl

theorem Sound.holds_of_mem {ledger : Ledger} (sound : ledger.Sound) {a : Absence}
    (h : a ∈ ledger.records) : ledger.holds a.id = true := by
  rw [holds, sound.mem_records_iff.1 h]
  rfl

/-- Records of one identifier are the same record. -/
theorem Sound.eq_of_id {ledger : Ledger} (sound : ledger.Sound) {a b : Absence}
    (ha : a ∈ ledger.records) (hb : b ∈ ledger.records) (same : a.id = b.id) : a = b := by
  rw [sound.mem_records_iff] at ha hb
  rw [same, hb] at ha
  exact (Option.some.inj ha).symm

theorem freshId_above {ledger : Ledger} (sound : ledger.Sound) {id : AbsenceId} {a : Absence}
    (h : ledger.record? id = some a) : id < ledger.freshId :=
  Nat.lt_of_lt_of_le (sound.below h) (Nat.le_max_left _ _)

/-- Removing a record leaves the others. -/
theorem removeAbsence_records {ledger : Ledger} (sound : ledger.Sound) (id : AbsenceId) :
    (ledger.removeAbsence id).2.records = ledger.records.filter fun a => a.id ≠ id := by
  unfold removeAbsence
  split
  · have keys (e : AbsenceId × Absence) (he : e ∈ ledger.absences.toList) : e.2.id = e.1 :=
      sound.keyed (OrderedMap.get?_eq_some_iff.2 he)
    rw [records, records, OrderedMap.values, OrderedMap.erase, OrderedMap.filter, OrderedMap.values,
      List.filter_map]
    congr 1
    apply List.filter_congr
    intro e he
    simp [keys e he]
  · next absent =>
    refine (List.filter_eq_self.2 fun a ha => ?_).symm
    have found := sound.mem_records_iff.1 ha
    have : a.id ≠ id := by
      rintro rfl
      exact absent (by rw [holds, found]; rfl)
    simpa using this

theorem removeAbsence_record? (ledger : Ledger) (id other : AbsenceId) :
    (ledger.removeAbsence id).2.record? other = if other = id then none else ledger.record? other := by
  unfold removeAbsence
  split
  · exact OrderedMap.get?_erase
  · next absent =>
    split
    · next same => simpa [holds, same] using absent
    · rfl

theorem removeAbsence_nextId (ledger : Ledger) (id : AbsenceId) :
    (ledger.removeAbsence id).2.nextId = ledger.nextId := by
  unfold removeAbsence
  split <;> rfl

theorem Sound.removeAbsence {ledger : Ledger} (sound : ledger.Sound) (id : AbsenceId) :
    (ledger.removeAbsence id).2.Sound where
  keyed {other a} h := by
    rw [removeAbsence_record?] at h
    split at h
    · cases h
    · exact sound.keyed h
  below {other a} h := by
    rw [removeAbsence_record?] at h
    rw [removeAbsence_nextId]
    split at h
    · cases h
    · exact sound.below h

/-- Removing several records leaves the others. -/
theorem removeAll_records {ledger : Ledger} (sound : ledger.Sound) (ids : List AbsenceId) :
    (ledger.removeAll ids).2.2.Sound ∧
      (ledger.removeAll ids).2.2.records = ledger.records.filter fun a => a.id ∉ ids := by
  induction ids generalizing ledger with
  | nil => exact ⟨sound, (List.filter_eq_self.2 fun a _ => by simp).symm⟩
  | cons id rest ih =>
      obtain ⟨soundRest, records⟩ := ih (sound.removeAbsence id)
      have step : (ledger.removeAll (id :: rest)).2.2 =
          ((ledger.removeAbsence id).2.removeAll rest).2.2 := by
        simp only [removeAll]
        split <;> rfl
      rw [step]
      refine ⟨soundRest, ?_⟩
      rw [records, removeAbsence_records sound, List.filter_filter]
      apply List.filter_congr
      intro a _
      rw [Bool.eq_iff_iff]
      simp [and_comm]

/-- The records of a ledger after a new one was placed: it comes last. -/
theorem placeAbsence_records {ledger : Ledger} (sound : ledger.Sound) (draft : AbsenceDraft) :
    (ledger.placeAbsence draft).2.records = ledger.records ++ [(ledger.placeAbsence draft).1] := by
  apply OrderedMap.values_insert_above
  intro e he
  exact decide_eq_true (freshId_above sound (OrderedMap.get?_eq_some_iff.2 he))

theorem Sound.placeAbsence {ledger : Ledger} (sound : ledger.Sound) (draft : AbsenceDraft) :
    (ledger.placeAbsence draft).2.Sound where
  keyed {other a} h := by
    simp only [Ledger.placeAbsence, record?, OrderedMap.get?_insert] at h
    split at h
    · next same =>
      cases h
      exact same.symm
    · exact sound.keyed h
  below {other a} h := by
    simp only [Ledger.placeAbsence, record?, OrderedMap.get?_insert] at h ⊢
    split at h
    · next same => exact same ▸ Nat.lt_succ_self _
    · exact Nat.lt_succ_of_lt (freshId_above sound h)

theorem Sound.putDay {ledger : Ledger} (sound : ledger.Sound) (person : PersonId) (date : Date) :
    (ledger.putDay person date).2.Sound :=
  ⟨fun h => sound.keyed h, fun h => Nat.lt_succ_of_lt (freshId_above sound h)⟩

/-- Looking for a day, or opening one, leaves the records as they are. -/
theorem ensureDay_ok {ledger after : Ledger} (sound : ledger.Sound) {person : PersonId} {date : Date}
    {day : DayId} (h : ensureDay person date ledger = .ok day after) :
    after.Sound ∧ ledger.nextId ≤ after.nextId ∧ after.records = ledger.records := by
  rcases ensureDay_ok_iff.1 h with ⟨-, rfl⟩ | ⟨-, -, -, rfl⟩
  · exact ⟨sound, Nat.le_refl _, rfl⟩
  · exact ⟨sound.putDay person date, Nat.le_succ_of_le (Nat.le_max_left _ _), rfl⟩

def Makes (ledger : Ledger) (person : PersonId) (addition : Addition) (record : Absence) : Prop :=
  ledger.nextId ≤ record.id ∧ ∃ day, record.toAbsenceDraft =
    ⟨person, addition.code, addition.date, addition.kind, none, some day⟩

/-- A replacing record that was written: it is the person's, with the code and date that were asked
for, and comes last. -/
theorem addReplacing_ok {ledger ledger' : Ledger} (sound : ledger.Sound) {person : PersonId}
    {addition : Addition} {record : Absence}
    (h : addReplacing person addition ledger = .ok record ledger') : ledger'.Sound ∧
      ledger.nextId ≤ ledger'.nextId ∧ ledger'.records = ledger.records ++ [record] ∧
        ledger.Makes person addition record := by
  obtain ⟨day, between, ensured, h⟩ := LedgerAction.bind_ok h
  obtain ⟨-, -, rfl, rfl⟩ := addAbsence_ok_iff.1 h
  obtain ⟨soundDay, nextId, records⟩ := ensureDay_ok sound ensured
  have fresh : ledger.nextId ≤ between.freshId := Nat.le_trans nextId (Nat.le_max_left _ _)
  refine ⟨soundDay.placeAbsence _, Nat.le_succ_of_le fresh, ?_, fresh, day, rfl⟩
  rw [placeAbsence_records soundDay, records]

/-- Replacing records that were written: they come last, one for each addition. -/
theorem addAll_ok {ledger ledger' : Ledger} (sound : ledger.Sound) {person : PersonId}
    {additions : List Addition} {inserted : List Absence}
    (h : addAll person additions ledger = .ok inserted ledger') : ledger'.Sound ∧
      ledger.nextId ≤ ledger'.nextId ∧ ledger'.records = ledger.records ++ inserted ∧
        List.Forall₂ (ledger.Makes person) additions inserted := by
  induction additions generalizing ledger inserted with
  | nil =>
      cases h
      exact ⟨sound, Nat.le_refl _, (List.append_nil _).symm, .nil⟩
  | cons addition rest ih =>
      obtain ⟨record, between, first, h⟩ := LedgerAction.bind_ok h
      obtain ⟨later, after, second, h⟩ := LedgerAction.bind_ok h
      cases h
      obtain ⟨soundFirst, nextFirst, recordsFirst, made⟩ := addReplacing_ok sound first
      obtain ⟨soundAll, nextAll, recordsAll, rest⟩ := ih soundFirst second
      refine ⟨soundAll, Nat.le_trans nextFirst nextAll, ?_, .cons made (rest.imp fun _ _ h => ?_)⟩
      · rw [recordsAll, recordsFirst, List.append_assoc]
        rfl
      · exact ⟨Nat.le_trans nextFirst h.1, h.2⟩

theorem removeAll_nextId (ledger : Ledger) (ids : List AbsenceId) :
    (ledger.removeAll ids).2.2.nextId = ledger.nextId := by
  induction ids generalizing ledger with
  | nil => rfl
  | cons id rest ih =>
    have later := (ih (ledger.removeAbsence id).2).trans (removeAbsence_nextId ledger id)
    simp only [removeAll]
    split
    · exact later
    · exact later

/-- A repair that is carried out has first removed records, then written others. -/
theorem carryOut_steps {ledger after : Ledger} {repair : Repair} {effect : RepairEffect}
    (h : carryOut repair ledger = .ok effect after) :
    effect.deleted = (ledger.removeAll (repair.removals.map (·.absence))).1 ∧
      effect.skipped = (ledger.removeAll (repair.removals.map (·.absence))).2.1 ∧
      addAll repair.person repair.additions
        (ledger.removeAll (repair.removals.map (·.absence))).2.2 = .ok effect.inserted after := by
  unfold carryOut at h
  dsimp only at h
  split at h
  · cases h
  · next added =>
    cases h
    exact ⟨rfl, rfl, added⟩
  · cases h

/-- A repair carried out: the removed records are gone, and one record for each addition stands behind
those that are left. -/
theorem carryOut_ok {ledger ledger' : Ledger} (sound : ledger.Sound) {repair : Repair}
    {effect : RepairEffect} (h : carryOut repair ledger = .ok effect ledger') : ledger'.Sound ∧
      ledger.nextId ≤ ledger'.nextId ∧
      ledger'.records = (ledger.records.filter fun a => a.id ∉ repair.removals.map (·.absence)) ++
        effect.inserted ∧
      List.Forall₂ (ledger.Makes repair.person) repair.additions effect.inserted := by
  obtain ⟨-, -, added⟩ := carryOut_steps h
  have removed := removeAll_records sound (repair.removals.map (·.absence))
  have nextId := removeAll_nextId ledger (repair.removals.map (·.absence))
  obtain ⟨soundAll, nextAll, records, made⟩ := addAll_ok removed.1 added
  refine ⟨soundAll, nextId ▸ nextAll, by rw [records, removed.2], made.imp fun _ _ h => ?_⟩
  exact ⟨nextId ▸ h.1, h.2⟩

/-- A repair of nothing does nothing. -/
theorem carryOut_nothing (ledger : Ledger) (person : PersonId) :
    carryOut ⟨person, [], []⟩ ledger = .ok .empty ledger := rfl

/-- What writing does to a ledger: its records stay or go, and new ones come under new identifiers. -/
structure Later (before after : Ledger) : Prop where
  sound : after.Sound
  nextId : before.nextId ≤ after.nextId
  origin {a : Absence} : a ∈ after.records → a ∈ before.records ∨ before.nextId ≤ a.id

theorem Sound.later {ledger : Ledger} (sound : ledger.Sound) : ledger.Later ledger :=
  ⟨sound, Nat.le_refl _, .inl⟩

/-- Writing that touches no record. -/
theorem Sound.later_of_absences {before after : Ledger} (sound : before.Sound)
    (same : after.absences = before.absences) (nextId : before.nextId ≤ after.nextId) :
    before.Later after where
  sound := by
    constructor
    · intro id a found
      rw [record?, same] at found
      exact sound.keyed found
    · intro id a found
      rw [record?, same] at found
      exact Nat.lt_of_lt_of_le (sound.below found) nextId
  nextId := nextId
  origin {a} ha := by
    rw [records, same] at ha
    exact .inl ha

theorem Later.trans {first second third : Ledger} (before : first.Later second)
    (after : second.Later third) : first.Later third := by
  refine ⟨after.sound, Nat.le_trans before.nextId after.nextId, fun {a} ha => ?_⟩
  rcases after.origin ha with old | new
  · exact before.origin old
  · exact .inr (Nat.le_trans before.nextId new)

/-- The identifier of an old record never stands for another. -/
theorem Later.eq_of_id {before after : Ledger} (later : before.Later after) (sound : before.Sound)
    {a r : Absence} (ha : a ∈ after.records) (hr : r ∈ before.records) (same : a.id = r.id) : a = r := by
  rcases later.origin ha with old | new
  · exact sound.eq_of_id old hr same
  · have below := sound.below (sound.mem_records_iff.1 hr)
    exact absurd (Nat.lt_of_lt_of_le (same ▸ below) new) (Nat.lt_irrefl _)

/-- A record that is there before and after was there all the time. -/
theorem Later.held {first second third : Ledger} (before : first.Later second)
    (after : second.Later third) (sound : first.Sound) {a : Absence} (ha : a ∈ first.records)
    (still : a ∈ third.records) : a ∈ second.records := by
  apply (after.origin still).resolve_right
  intro new
  have below := sound.below (sound.mem_records_iff.1 ha)
  exact Nat.lt_irrefl _ (Nat.lt_of_lt_of_le below (Nat.le_trans before.nextId new))

/-- The ledger of a document is sound. -/
theorem sound_ofDocument (document : LedgerDocument) : (ofDocument document).Sound where
  keyed {id a} h := by
    obtain ⟨b, -, entry⟩ := List.mem_map.1 (OrderedMap.mem_of_get?_ofList h)
    obtain ⟨rfl, rfl⟩ := Prod.mk.inj entry
    rfl
  below {id a} h := by
    have mem : id ∈ (OrderedMap.ofList (document.absences.map fun a => (a.id, a))).keys :=
      List.mem_map.2 ⟨(id, a), OrderedMap.get?_eq_some_iff.1 h, rfl⟩
    refine Nat.lt_succ_of_le (le_foldl_max 0 ?_)
    exact List.mem_append_left _ (List.mem_append_left _ mem)

end Ledger

end Entitlement
