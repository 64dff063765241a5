import Mathlib.Data.List.Nodup
import Entitlement.Proofs.Ledger.Records
import Entitlement.Scan.Reconcile

/-!
The annotations of a ledger under the actions on it. Each stands under its own identifier, below the next
one to be given; so a new one comes last, and deleting takes away just those that are named. Repairs write
no annotations.
-/

namespace Entitlement

namespace Ledger

/-- Every annotation stands under its identifier, and all identifiers of annotations are below the next. -/
structure Tagged (ledger : Ledger) : Prop where
  keyed {id : TroubleId} {t : Trouble} : ledger.troubles.get? id = some t → t.id = id
  below {id : TroubleId} {t : Trouble} : ledger.troubles.get? id = some t → id < ledger.nextId

def annotations (ledger : Ledger) : List Trouble :=
  ledger.troubles.values

theorem mem_annotations {ledger : Ledger} {t : Trouble} :
    t ∈ ledger.annotations ↔ ∃ id, ledger.troubles.get? id = some t :=
  OrderedMap.mem_values

theorem troublesOf_eq (ledger : Ledger) (absence : AbsenceId) :
    ledger.troublesOf absence = ledger.annotations.filter fun t => t.absence = absence := rfl

theorem mem_troublesOf {ledger : Ledger} {absence : AbsenceId} {t : Trouble} :
    t ∈ ledger.troublesOf absence ↔ (∃ id, ledger.troubles.get? id = some t) ∧ t.absence = absence := by
  rw [troublesOf_eq, List.mem_filter, mem_annotations, decide_eq_true_eq]

/-- A ledger stays tagged while annotations go and identifiers are given out. -/
theorem Tagged.fewer {before after : Ledger} (tagged : before.Tagged)
    (nextId : before.nextId ≤ after.nextId)
    (kept : ∀ id t, after.troubles.get? id = some t → before.troubles.get? id = some t) :
    after.Tagged where
  keyed h := tagged.keyed (kept _ _ h)
  below h := Nat.lt_of_lt_of_le (tagged.below (kept _ _ h)) nextId

theorem Tagged.eq_of_id {ledger : Ledger} (tagged : ledger.Tagged) {a b : AbsenceId} {t u : Trouble}
    (ht : t ∈ ledger.troublesOf a) (hu : u ∈ ledger.troublesOf b) (same : t.id = u.id) : t = u := by
  obtain ⟨⟨i, ht⟩, -⟩ := mem_troublesOf.1 ht
  obtain ⟨⟨j, hu⟩, -⟩ := mem_troublesOf.1 hu
  have index : i = j := by rw [← tagged.keyed ht, ← tagged.keyed hu, same]
  rw [index, hu] at ht
  exact (Option.some.inj ht).symm

/-- The identifiers of the annotations ascend. -/
theorem Tagged.ascending {ledger : Ledger} (tagged : ledger.Tagged) :
    ledger.annotations.Pairwise fun t u => t.id < u.id := by
  refine List.pairwise_map.2 (ledger.troubles.ascending.imp_of_mem fun {e e'} he he' before => ?_)
  rw [tagged.keyed (OrderedMap.get?_eq_some_iff.2 he), tagged.keyed (OrderedMap.get?_eq_some_iff.2 he')]
  exact of_decide_eq_true before

/-- The annotations of a record have different identifiers. -/
theorem Tagged.distinct {ledger : Ledger} (tagged : ledger.Tagged) (absence : AbsenceId) :
    (ledger.troublesOf absence).Pairwise fun t u => t.id ≠ u.id :=
  (tagged.ascending.filter _).imp fun before => Nat.ne_of_lt before

/-- The identifiers of all annotations are below the next. -/
theorem Tagged.id_lt {ledger : Ledger} (tagged : ledger.Tagged) {t : Trouble}
    (h : t ∈ ledger.annotations) : t.id < ledger.nextId := by
  obtain ⟨id, found⟩ := mem_annotations.1 h
  exact tagged.keyed found ▸ tagged.below found

theorem removeTrouble_get? (ledger : Ledger) (id other : TroubleId) :
    (ledger.removeTrouble id).2.troubles.get? other =
      if other = id then none else ledger.troubles.get? other := by
  unfold removeTrouble
  split
  · exact OrderedMap.get?_erase
  · next absent =>
    split
    · next same =>
      rw [same]
      simpa [OrderedMap.contains] using absent
    · rfl

theorem removeTrouble_keeps (ledger : Ledger) (id : TroubleId) :
    (ledger.removeTrouble id).2.absences = ledger.absences ∧
      (ledger.removeTrouble id).2.nextId = ledger.nextId := by
  unfold removeTrouble
  split
  · exact ⟨rfl, rfl⟩
  · exact ⟨rfl, rfl⟩

theorem Tagged.removeTrouble {ledger : Ledger} (tagged : ledger.Tagged) (id : TroubleId) :
    (ledger.removeTrouble id).2.Tagged := by
  apply tagged.fewer (Nat.le_of_eq (removeTrouble_keeps ledger id).2.symm)
  intro other t h
  rw [removeTrouble_get?] at h
  split at h
  · cases h
  · exact h

/-- Deleting takes away the annotation under the identifier, and tells whether there was one. -/
theorem removeTrouble_annotations {ledger : Ledger} (tagged : ledger.Tagged) (id : TroubleId) :
    (ledger.removeTrouble id).2.annotations = ledger.annotations.filter (fun t => t.id ≠ id) ∧
      (ledger.removeTrouble id).1.toNat = ledger.annotations.countP (fun t => t.id = id) := by
  have key (e : TroubleId × Trouble) (he : e ∈ ledger.troubles.toList) : e.2.id = e.1 :=
    tagged.keyed (OrderedMap.get?_eq_some_iff.2 he)
  unfold removeTrouble
  split
  · next present =>
    constructor
    · rw [annotations, annotations, OrderedMap.values, OrderedMap.erase, OrderedMap.filter,
        OrderedMap.values, List.filter_map]
      congr 1
      apply List.filter_congr
      intro e he
      simp [key e he]
    · obtain ⟨t, found⟩ := Option.isSome_iff_exists.1 present
      have mem : id ∈ ledger.annotations.map (·.id) :=
        List.mem_map.2 ⟨t, mem_annotations.2 ⟨id, found⟩, tagged.keyed found⟩
      have once : (ledger.annotations.map (·.id)).Nodup :=
        List.pairwise_map.2 (tagged.ascending.imp fun before => Nat.ne_of_lt before)
      rw [Bool.toNat_true, ← List.count_eq_one_of_mem once mem, List.count, List.countP_map]
      rfl
  · next absent =>
    have other (t : Trouble) (ht : t ∈ ledger.annotations) : t.id ≠ id := by
      rintro rfl
      obtain ⟨k, found⟩ := mem_annotations.1 ht
      rw [← tagged.keyed found] at found
      exact absent (by rw [OrderedMap.contains, found]; rfl)
    refine ⟨(List.filter_eq_self.2 fun t ht => decide_eq_true (other t ht)).symm, ?_⟩
    exact (List.countP_eq_zero.2 fun t ht => by simpa using other t ht).symm

/-- Deleting some annotations leaves the others, and leaves the records. It counts those it deletes. -/
theorem removeTroubles_ok {ledger : Ledger} (tagged : ledger.Tagged) (ids : List TroubleId) :
    (ledger.removeTroubles ids).2.Tagged ∧ (ledger.removeTroubles ids).2.absences = ledger.absences ∧
      (ledger.removeTroubles ids).2.nextId = ledger.nextId ∧
      (ledger.removeTroubles ids).2.annotations = ledger.annotations.filter (fun t => t.id ∉ ids) ∧
      (ledger.removeTroubles ids).1 = ledger.annotations.countP fun t => t.id ∈ ids := by
  induction ids generalizing ledger with
  | nil =>
    refine ⟨tagged, rfl, rfl, (List.filter_eq_self.2 fun t _ => by simp).symm, ?_⟩
    exact (List.countP_eq_zero.2 fun t _ => by simp).symm
  | cons id rest ih =>
    obtain ⟨tagged', absences, nextId, left, count⟩ := ih (tagged.removeTrouble id)
    obtain ⟨absences', nextId'⟩ := removeTrouble_keeps ledger id
    obtain ⟨left', count'⟩ := removeTrouble_annotations tagged id
    refine ⟨tagged', absences.trans absences', nextId.trans nextId', ?_, ?_⟩
    · show ((ledger.removeTrouble id).2.removeTroubles rest).2.annotations = _
      rw [left, left', List.filter_filter]
      apply List.filter_congr
      intro t _
      rw [Bool.eq_iff_iff]
      simp [and_comm]
    · have counted : (ledger.removeTroubles (id :: rest)).1 =
          (ledger.removeTrouble id).1.toNat + ((ledger.removeTrouble id).2.removeTroubles rest).1 := by
        show (if (ledger.removeTrouble id).1 then _ + 1 else _) = _
        cases (ledger.removeTrouble id).1 with
        | true => exact Nat.add_comm _ 1
        | false => exact (Nat.zero_add _).symm
      rw [counted, count, count', left',
        List.countP_eq_countP_filter_add ledger.annotations (fun t => decide (t.id ∈ id :: rest))
          fun t => decide (t.id = id)]
      congr 1
      · rw [List.countP_filter]
        exact List.countP_congr fun t _ => by simpa using Or.inl
      · rw [List.countP_filter, List.countP_filter]
        exact List.countP_congr fun t _ => by simp +contextual

theorem Tagged.lt_freshId {ledger : Ledger} (tagged : ledger.Tagged) {id : TroubleId} {t : Trouble}
    (found : ledger.troubles.get? id = some t) : id < ledger.freshId :=
  Nat.lt_of_lt_of_le (tagged.below found) (Nat.le_max_left _ _)

theorem Tagged.putTrouble {ledger : Ledger} (tagged : ledger.Tagged) (absence : AbsenceId)
    (problem : Problem) : (ledger.putTrouble absence problem).2.Tagged where
  keyed {id t} h := by
    simp only [Ledger.putTrouble, OrderedMap.get?_insert] at h
    split at h
    · next same =>
      cases h
      exact same.symm
    · exact tagged.keyed h
  below {id t} h := by
    simp only [Ledger.putTrouble, OrderedMap.get?_insert] at h ⊢
    split at h
    · next same => exact same ▸ Nat.lt_succ_self _
    · exact Nat.lt_succ_of_lt (tagged.lt_freshId h)

/-- A new annotation comes behind all there are. -/
theorem putTrouble_annotations {ledger : Ledger} (tagged : ledger.Tagged) (absence : AbsenceId)
    (problem : Problem) : (ledger.putTrouble absence problem).2.annotations =
      ledger.annotations ++ [(ledger.putTrouble absence problem).1] := by
  apply OrderedMap.values_insert_above
  intro e he
  exact decide_eq_true (tagged.lt_freshId (OrderedMap.get?_eq_some_iff.2 he))

/-- Problems that were annotated stand behind all annotations there were, each under a new identifier. -/
theorem annotateAll_ok {ledger after : Ledger} (tagged : ledger.Tagged) {absence : AbsenceId}
    {problems : List Problem} (h : annotateAll absence problems ledger = .ok () after) :
    ∃ written, after.Tagged ∧ after.absences = ledger.absences ∧ ledger.nextId ≤ after.nextId ∧
      after.annotations = ledger.annotations ++ written ∧ written.map (·.problem) = problems ∧
      ∀ t ∈ written, t.absence = absence ∧ ledger.nextId ≤ t.id := by
  induction problems generalizing ledger with
  | nil =>
    cases h
    exact ⟨[], tagged, rfl, Nat.le_refl _, (List.append_nil _).symm, rfl,
      fun t ht => absurd ht List.not_mem_nil⟩
  | cons problem rest ih =>
    obtain ⟨trouble, between, first, h⟩ := LedgerAction.bind_ok h
    obtain ⟨-, -, rfl, rfl⟩ := annotate_ok_iff.1 first
    obtain ⟨written, tagged', absences, nextId, troubles, all, new⟩ := ih (tagged.putTrouble absence problem) h
    have fresh : ledger.nextId ≤ ledger.freshId := Nat.le_max_left _ _
    refine ⟨(ledger.putTrouble absence problem).1 :: written, tagged', absences,
      Nat.le_trans (Nat.le_succ_of_le fresh) nextId, ?_, ?_, fun t ht => ?_⟩
    · rw [troubles, putTrouble_annotations tagged, List.append_assoc]
      rfl
    · rw [List.map_cons, all]
      rfl
    · rcases List.mem_cons.1 ht with rfl | ht
      · exact ⟨rfl, fresh⟩
      · exact ⟨(new t ht).1, Nat.le_trans (Nat.le_succ_of_le fresh) (new t ht).2⟩

/-- With a record its annotations go. -/
theorem removeAbsence_troubles {ledger : Ledger} {id : AbsenceId} {k : TroubleId} {t : Trouble} :
    (ledger.removeAbsence id).2.troubles.get? k = some t ↔
      ledger.troubles.get? k = some t ∧ ((ledger.removeAbsence id).1 = true → t.absence ≠ id) := by
  unfold removeAbsence
  split
  · simp
  · simp

theorem removeAll_troubles {ledger : Ledger} {ids : List AbsenceId} {k : TroubleId} {t : Trouble} :
    (ledger.removeAll ids).2.2.troubles.get? k = some t ↔
      ledger.troubles.get? k = some t ∧ t.absence ∉ (ledger.removeAll ids).1 := by
  induction ids generalizing ledger with
  | nil => exact (and_iff_left List.not_mem_nil).symm
  | cons id rest ih =>
    have first : (ledger.removeAbsence id).2.troubles.get? k = some t ↔ _ := removeAbsence_troubles
    simp only [removeAll]
    split
    · next found =>
      rw [ih, first, List.mem_cons, not_or, and_assoc, imp_iff_right found]
    · next gone =>
      rw [ih, first, and_assoc]
      exact and_congr_right fun _ => and_iff_right fun found => absurd found gone

theorem addAll_troubles {ledger after : Ledger} {person : PersonId} {additions : List Addition}
    {inserted : List Absence} (h : addAll person additions ledger = .ok inserted after) :
    after.troubles = ledger.troubles := by
  induction additions generalizing ledger inserted with
  | nil =>
    cases h
    rfl
  | cons addition rest ih =>
    obtain ⟨record, between, first, h⟩ := LedgerAction.bind_ok h
    obtain ⟨later, last, second, h⟩ := LedgerAction.bind_ok h
    cases h
    obtain ⟨day, opened, ensured, placed⟩ := LedgerAction.bind_ok first
    obtain ⟨-, -, -, rfl⟩ := addAbsence_ok_iff.1 placed
    apply (ih second).trans
    rcases ensureDay_ok_iff.1 ensured with ⟨-, rfl⟩ | ⟨-, -, -, rfl⟩
    · rfl
    · rfl

/-- A repair takes away the annotations of the records it deletes, and writes none. -/
theorem carryOut_troubles {ledger after : Ledger} {repair : Repair} {effect : RepairEffect}
    (h : carryOut repair ledger = .ok effect after) {k : TroubleId} {t : Trouble} :
    after.troubles.get? k = some t ↔
      ledger.troubles.get? k = some t ∧ t.absence ∉ effect.deleted := by
  obtain ⟨deleted, -, added⟩ := carryOut_steps h
  rw [addAll_troubles added, deleted]
  exact removeAll_troubles

/-- The annotations of a ledger in which just those with some property are left. -/
theorem annotations_filter {before after : Ledger} {p : Trouble → Bool}
    (h : ∀ k t, after.troubles.get? k = some t ↔ before.troubles.get? k = some t ∧ p t = true) :
    after.annotations = before.annotations.filter p := by
  have filtered : after.troubles = before.troubles.filter fun _ t => p t := by
    apply OrderedMap.ext
    intro k
    apply Option.ext
    intro t
    rw [h, OrderedMap.get?_filter_eq_some]
  rw [annotations, annotations, filtered, OrderedMap.values, OrderedMap.filter, OrderedMap.values,
    List.filter_map]
  rfl

/-- The ledger of a document is tagged. -/
theorem tagged_ofDocument (document : LedgerDocument) : (ofDocument document).Tagged where
  keyed {id t} h := by
    obtain ⟨u, -, entry⟩ := List.mem_map.1 (OrderedMap.mem_of_get?_ofList h)
    obtain ⟨rfl, rfl⟩ := Prod.mk.inj entry
    rfl
  below {id t} h := by
    have mem : id ∈ (OrderedMap.ofList (document.troubles.map fun t => (t.id, t))).keys :=
      List.mem_map.2 ⟨(id, t), OrderedMap.get?_eq_some_iff.1 h, rfl⟩
    refine Nat.lt_succ_of_le (le_foldl_max 0 ?_)
    exact List.mem_append_left _ (List.mem_append_right _ mem)

end Ledger

end Entitlement
