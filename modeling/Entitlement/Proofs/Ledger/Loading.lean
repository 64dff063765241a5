import Entitlement.Proofs.Ledger.Scripts

/-!
What a new record starts with in a ledger that was loaded from a document. Its identifier is nobody's,
whatever the document says. But the next identifier is above those of the entries only, not above those that
the annotations refer to; so an annotation that refers above it waits for the record that will be given its
identifier.
-/

namespace Entitlement

namespace Ledger

/-- Whatever is done to a ledger, a record added then gets an identifier that no entry uses. -/
def AddsUnderNew (ledger : Ledger) : Prop :=
  ∀ (script : Script) (draft : AbsenceDraft) (record : Absence) (after : Ledger),
    addAbsence draft (script.run ledger) = .ok record after → record.id ∉ (script.run ledger).ids

/-- Whatever is done to a ledger, a record added then is not annotated. -/
def AddsClean (ledger : Ledger) : Prop :=
  ∀ (script : Script) (draft : AbsenceDraft) (record : Absence) (after : Ledger),
    addAbsence draft (script.run ledger) = .ok record after → after.troublesOf record.id = []

/-- No annotation refers to an identifier that is still to be given. -/
def AwaitsNone (ledger : Ledger) : Prop :=
  ∀ t ∈ ledger.annotations, t.absence < ledger.nextId ∨ greatestId ≤ t.absence

theorem numbered_ofDocument (document : LedgerDocument) : (ofDocument document).Numbered :=
  .of_days (sound_ofDocument document) (tagged_ofDocument document) fun _ used =>
    Nat.lt_succ_of_le (le_foldl_max 0 (List.mem_append_right _ used))

/-- A record that refers to no attendance day is added as long as there is an identifier for it. -/
theorem addAbsence_free {draft : AbsenceDraft} (free : draft.day = none) {ledger : Ledger}
    (room : ledger.freshId < greatestId) :
    addAbsence draft ledger = .ok (ledger.placeAbsence draft).1 (ledger.placeAbsence draft).2 := by
  have checked : ledger.checkDay draft = .ok () := by simp only [checkDay, free, pure, Except.pure]
  exact addAbsence_ok_iff.2 ⟨checked, room, rfl, rfl⟩

theorem Numbered.freshId_unused {ledger : Ledger} (numbered : ledger.Numbered) :
    ledger.freshId ∉ ledger.ids :=
  fun used => Nat.not_lt.2 (Nat.le_max_left _ _) (numbered.below used)

/-- A write never takes the next identifier back. -/
theorem Wrote.nextId {before after : Ledger} (wrote : before.Wrote after) (numbered : before.Numbered) :
    before.nextId ≤ after.nextId := by
  rcases wrote.ids numbered.sound numbered.tagged with ⟨-, same⟩ | ⟨-, next⟩
  · exact Nat.le_of_eq same.symm
  · exact next ▸ Nat.le_succ_of_le (Nat.le_max_left _ _)

/-- An annotation that is there after a write was there before, or is on a record. -/
theorem Wrote.annotations {before after : Ledger} (wrote : before.Wrote after) (numbered : before.Numbered)
    {t : Trouble} (ht : t ∈ after.annotations) :
    t ∈ before.annotations ∨ before.holds t.absence = true := by
  cases wrote with
  | placed _ => exact .inl ht
  | @removed id _ =>
    obtain ⟨k, found⟩ := mem_annotations.1 ht
    exact .inl (mem_annotations.2 ⟨k, (removeAbsence_troubles.1 found).1⟩)
  | @annotated absence problem held =>
    rw [putTrouble_annotations numbered.tagged] at ht
    rcases List.mem_append.1 ht with old | new
    · exact .inl old
    · obtain rfl := List.mem_singleton.1 new
      exact .inr held
  | @cleared id _ =>
    rw [(removeTrouble_annotations numbered.tagged id).1] at ht
    exact .inl (List.mem_of_mem_filter ht)
  | opened _ => exact .inl ht

theorem AwaitsNone.wrote {before after : Ledger} (awaits : before.AwaitsNone) (numbered : before.Numbered)
    (wrote : before.Wrote after) : after.AwaitsNone := by
  intro t ht
  have later := wrote.nextId numbered
  rcases wrote.annotations numbered ht with old | held
  · exact (awaits t old).imp_left fun below => Nat.lt_of_lt_of_le below later
  · obtain ⟨a, found⟩ := Option.isSome_iff_exists.1 held
    exact .inl (Nat.lt_of_lt_of_le (numbered.sound.below found) later)

/-- No annotation refers to the identifier of a new record. -/
theorem AwaitsNone.addsClean {ledger : Ledger} (awaits : ledger.AwaitsNone) (numbered : ledger.Numbered) :
    ledger.AddsClean := by
  intro script draft record after added
  have kept := script.run_keeps (P := fun l => l.Numbered ∧ l.AwaitsNone)
    (fun h wrote => ⟨h.1.wrote wrote, h.2.wrote h.1 wrote⟩) ⟨numbered, awaits⟩
  obtain ⟨-, room, rfl, rfl⟩ := addAbsence_ok_iff.1 added
  rw [troublesOf_eq]
  refine List.filter_eq_nil_iff.2 fun t ht => ?_
  have apart : t.absence ≠ (script.run ledger).freshId := by
    rcases kept.2 t ht with below | above
    · exact Nat.ne_of_lt (Nat.lt_of_lt_of_le below (Nat.le_max_left _ _))
    · exact Nat.ne_of_gt (Nat.lt_of_lt_of_le room above)
  rw [decide_eq_true_eq]
  exact apart

def Script.adding (draft : AbsenceDraft) : Nat → Script
  | 0 => .done
  | n + 1 => .operate (.addAbsence draft) (adding draft n)

/-- Records that refer to no attendance day are added, and use up identifiers. -/
theorem Script.adding_run {draft : AbsenceDraft} (free : draft.day = none) (n : Nat) {ledger : Ledger}
    (pos : 1 ≤ ledger.nextId) (room : ledger.nextId + n ≤ greatestId) :
    ((adding draft n).run ledger).nextId = ledger.nextId + n ∧
      ((adding draft n).run ledger).annotations = ledger.annotations := by
  induction n generalizing ledger with
  | zero => exact ⟨rfl, rfl⟩
  | succ n ih =>
    have fresh : ledger.freshId = ledger.nextId := Nat.max_eq_left pos
    have step : leftBy (Operation.addAbsence draft).run ledger = (ledger.placeAbsence draft).2 := by
      have ran : (Operation.addAbsence draft).run ledger = .ok () (ledger.placeAbsence draft).2 :=
        discard_ok (addAbsence_free free (by omega))
      rw [leftBy, ran]
    have next : (ledger.placeAbsence draft).2.nextId = ledger.nextId + 1 := congrArg (· + 1) fresh
    show ((adding draft n).run (leftBy _ ledger)).nextId = _ ∧
      ((adding draft n).run (leftBy _ ledger)).annotations = _
    rw [step]
    obtain ⟨nextId, annotations⟩ := ih (by omega) (by omega : (ledger.placeAbsence draft).2.nextId + n ≤ _)
    refine ⟨?_, annotations⟩
    rw [nextId, next, Nat.add_assoc, Nat.add_comm 1]

/-- An annotation that refers to an identifier still to be given comes to a record in the end. -/
theorem not_addsClean {ledger : Ledger} (pos : 1 ≤ ledger.nextId) {t : Trouble}
    (ht : t ∈ ledger.annotations) (above : ledger.nextId ≤ t.absence) (below : t.absence < greatestId) :
    ¬ ledger.AddsClean := by
  intro clean
  -- Records are added until the identifier that the annotation refers to is the next.
  let draft : AbsenceDraft := ⟨0, "", .minimum, .nothing, none, none⟩
  let script := Script.adding draft (t.absence - ledger.nextId)
  have free : draft.day = none := rfl
  have room : ledger.nextId + (t.absence - ledger.nextId) ≤ greatestId := by
    rw [Nat.add_sub_cancel' above]
    exact Nat.le_of_lt below
  obtain ⟨nextId, annotations⟩ := Script.adding_run free (t.absence - ledger.nextId) pos room
  have next : (script.run ledger).freshId = t.absence := by
    rw [freshId, nextId]
    omega
  have waits : t ∈ ((script.run ledger).placeAbsence draft).2.troublesOf (script.run ledger).freshId :=
    mem_troublesOf.2 ⟨mem_annotations.1 (annotations ▸ ht), next.symm⟩
  have unannotated := clean script draft _ _ (addAbsence_free free (next ▸ below))
  exact List.not_mem_nil (unannotated ▸ waits)

/-- In the ledger of any document, whatever is done to it, a new record gets an identifier that no record, no
annotation and no attendance day uses. The record is always without annotations just if no annotation of the
document refers to an identifier that is still to be given. -/
theorem loaded_additions (document : LedgerDocument) : (ofDocument document).AddsUnderNew ∧
    ((ofDocument document).AddsClean ↔ (ofDocument document).AwaitsNone) := by
  have numbered := numbered_ofDocument document
  refine ⟨fun script draft record after added => ?_, fun clean t ht => ?_, fun awaits => ?_⟩
  · obtain ⟨-, -, rfl, -⟩ := addAbsence_ok_iff.1 added
    exact (script.run_keeps Numbered.wrote numbered).freshId_unused
  · by_contra waits
    obtain ⟨above, below⟩ := not_or.1 waits
    exact not_addsClean (Nat.le_add_left _ _) ht (Nat.le_of_not_lt above) (Nat.lt_of_not_le below) clean
  · exact awaits.addsClean numbered

def danglingDocument : LedgerDocument :=
  { LedgerDocument.empty with troubles := [⟨1, 2, .limitExceeded⟩] }

/-- The first record that is added inherits the annotation. -/
theorem dangling_inherited : ∃ record after,
    addAbsence ⟨1, "X", .sample 2024 3 5, .allDay, none, none⟩ (ofDocument danglingDocument) =
      .ok record after ∧ after.troublesOf record.id = [⟨1, 2, .limitExceeded⟩] :=
  ⟨_, _, rfl, by cbv⟩

end Ledger

end Entitlement
