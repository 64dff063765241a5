import Entitlement.Proofs.Scan.Idempotence

/-!
What a scan leaves of the annotations of a ledger, whatever they were and whatever the rules: on a scanned
record just what the report lists with it, on a deleted record none, and on any other record what was there.
-/

namespace Entitlement

namespace ScanContext

variable {context : ScanContext} {scope : ScanScope}

structure Annotates (scope : ScanScope) (report : Report) (before after : Ledger) : Prop where
  /-- A scanned record that is still there has one annotation for each problem listed with it. -/
  agrees {r : Absence} : r ∈ scope.records → after.holds r.id = true →
    after.Annotated r.id (report.problemsOf r.id)
  /-- Of the annotations of one problem that is still listed the first stays. -/
  keeps {t : Trouble} : t ∈ before.annotations → after.holds t.absence = true →
    report.lists t.absence t.problem = true →
    (∀ u ∈ before.troublesOf t.absence, u.problem = t.problem → t.id ≤ u.id) → t ∈ after.annotations
  spares {id : AbsenceId} : (∀ r ∈ scope.records, r.id ≠ id) → id ∉ report.deleted →
    after.troublesOf id = before.troublesOf id
  clears {id : AbsenceId} : id ∈ report.deleted → after.troublesOf id = []
  added : report.troubles.added = after.annotations.countP fun t => t ∉ before.annotations
  removed : report.troubles.removed =
    before.annotations.countP fun t => t.absence ∉ report.deleted ∧ t ∉ after.annotations

/-- Visits leave the annotations of all records that they have not deleted. -/
theorem Writes.annotations {deleted : List AbsenceId} {inserted : List Absence} {before after : Ledger}
    (writes : Writes scope deleted inserted before after) :
    after.annotations = before.annotations.filter fun t => t.absence ∉ deleted :=
  Ledger.annotations_filter fun k t => by rw [writes.troubles, decide_eq_true_eq]

theorem Writes.mem_annotations {deleted : List AbsenceId} {inserted : List Absence}
    {before after : Ledger} (writes : Writes scope deleted inserted before after) {t : Trouble} :
    t ∈ after.annotations ↔ t ∈ before.annotations ∧ t.absence ∉ deleted := by
  rw [writes.annotations, List.mem_filter, decide_eq_true_eq]

/-- A record that is not deleted keeps its annotations. -/
theorem Writes.troublesOf {deleted : List AbsenceId} {inserted : List Absence} {before after : Ledger}
    (writes : Writes scope deleted inserted before after) {id : AbsenceId} (away : id ∉ deleted) :
    after.troublesOf id = before.troublesOf id := by
  rw [Ledger.troublesOf_eq, writes.annotations, List.filter_filter, Ledger.troublesOf_eq]
  apply List.filter_congr
  intro t _
  by_cases on : t.absence = id
  · simp [on, away]
  · simp [on]

/-- A scan makes the annotations of the scanned records those of its report, each once and under the
identifier that the problem had first; of the others it takes away those of the records it deletes. -/
theorem annotates_of_scan {ledger after : Ledger} (sound : ledger.Sound) (tagged : ledger.Tagged)
    {report : Report} (ok : context.scan scope ledger = .ok report after) :
    Annotates scope report ledger after := by
  obtain ⟨visits, between, troubles, visited, reconciled, rfl⟩ := scan_ok ok
  have filed := filed_agenda context scope
  have run := (visitAll_covers (agenda_distinct context scope) visited).run
  obtain ⟨writes, removes⟩ := run.writes sound
  have reconciles := Ledger.reconcile_ok filed.once (run.tagged sound tagged) reconciled
  obtain ⟨kept, written, rewrites⟩ := reconciles.rewrites
  have stays {id : AbsenceId} (held : after.holds id = true) : id ∉ deletedBy visits := by
    intro gone
    rw [Ledger.holds_congr reconciles.absences, run.removed sound gone] at held
    cases held
  have old {t : Trouble} (ht : t ∈ ledger.annotations) : t ∉ written := fun new =>
    Nat.not_lt.2 (Nat.le_trans writes.nextId (rewrites.fresh new).2) (tagged.id_lt ht)
  refine ⟨fun {r} hr held => ?_, fun {t} ht held listed lowest => ?_, fun {id} other away => ?_,
    fun {id} gone => ?_, ?_, ?_⟩
  · have inside : (context.agenda scope).contains r.id = true := Agenda.contains_iff.2 (filed.holds hr)
    rw [problemsOf_ofVisits, if_pos inside]
    have untouched : (removedBy visits).contains r.id = false :=
      Bool.eq_false_iff.2 fun gone => stays held ((removes r.id).1 gone)
    apply reconciles.annotated ⟨List.mem_map.2 (Agenda.contains_iff.1 inside), untouched⟩
    rwa [← Ledger.holds_congr reconciles.absences]
  · have wants := OrderedSet.contains_iff.1 (lists_ofVisits.1 listed).2
    apply reconciles.keeps (writes.mem_annotations.2 ⟨ht, stays held⟩) wants
    intro u hu same
    obtain ⟨hu, on⟩ := List.mem_filter.1 hu
    exact lowest u (List.mem_filter.2 ⟨(writes.mem_annotations.1 hu).1, on⟩) same
  · have spared : after.troublesOf id = between.troublesOf id := by
      apply reconciles.troublesOf
      rintro ⟨queued, -⟩
      obtain ⟨a, ha, same⟩ := List.mem_map.1 queued
      exact other a (filed.origin ha) same
    rw [spared, writes.troublesOf away]
  · have spared : after.troublesOf id = between.troublesOf id := by
      apply reconciles.troublesOf
      rintro ⟨-, here⟩
      rw [(removes id).2 gone] at here
      cases here
    apply List.eq_nil_iff_forall_not_mem.2
    intro t ht
    obtain ⟨ht, on⟩ := List.mem_filter.1 (spared ▸ ht)
    exact (writes.mem_annotations.1 ht).2 (of_decide_eq_true on ▸ gone)
  · have none : (between.annotations.filter kept).countP (fun t => t ∉ ledger.annotations) = 0 :=
      List.countP_eq_zero.2 fun t ht => by
        simpa using (writes.mem_annotations.1 (List.mem_filter.1 ht).1).1
    have all : written.countP (fun t => t ∉ ledger.annotations) = written.length :=
      List.countP_eq_length.2 fun t ht => decide_eq_true fun known => old known ht
    show troubles.added = _
    rw [rewrites.added, rewrites.annotations, List.countP_append, none, all, Nat.zero_add]
  · show troubles.removed = _
    rw [rewrites.removed, writes.annotations, List.countP_filter]
    apply List.countP_congr
    intro t ht
    rw [Bool.and_eq_true, decide_eq_true_eq, decide_eq_true_eq, and_comm]
    refine and_congr_right fun away => ?_
    rw [rewrites.mem, or_iff_left (old ht), and_iff_right (writes.mem_annotations.2 ⟨ht, away⟩),
      Bool.not_eq_true', Bool.not_eq_true]

/-- The overtime of one day with annotations on it: one of a problem it has not, two of one it has; one on
the record that is to go, and one on a record that is not there. -/
def annotatedDocument : LedgerDocument :=
  { sampleDocument with
    troubles := [⟨4, 1, .limitExceeded⟩, ⟨5, 1, .duplicateCode⟩, ⟨6, 1, .duplicateCode⟩,
      ⟨7, 3, .outOfContract⟩, ⟨8, 99, .noChildExist⟩] }

def annotatedScope : ScanScope :=
  .ofLedger (.ofDocument annotatedDocument) annotatedDocument.persons 1 .minimum

/-- The first annotation of the problem stays, and the two that say nothing new or nothing true go. -/
theorem first_annotation_kept : ∃ report after,
    sample.scan annotatedScope (.ofDocument annotatedDocument) = .ok report after ∧
      report.deleted = [3] ∧ report.troubles = ⟨1, 2⟩ ∧ after.Annotated 1 (report.problemsOf 1) ∧
      ⟨5, 1, .duplicateCode⟩ ∈ after.annotations ∧ after.troublesOf 3 = [] ∧
      after.troublesOf 99 = [⟨8, 99, .noChildExist⟩] := by
  have run : sample.scansTo annotatedScope (.ofDocument annotatedDocument) (fun report after =>
      decide (report.deleted = [3]) && decide (report.troubles = ⟨1, 2⟩) && after.holds 1 &&
        report.lists 1 .duplicateCode) = true := by cbv
  have queue : annotatedScope.records = sampleDocument.absences := by cbv
  have stored : (Ledger.ofDocument annotatedDocument).annotations = annotatedDocument.troubles := by cbv
  have own : (Ledger.ofDocument annotatedDocument).troublesOf 1 =
      [⟨4, 1, .limitExceeded⟩, ⟨5, 1, .duplicateCode⟩, ⟨6, 1, .duplicateCode⟩] := by cbv
  have elsewhere : (Ledger.ofDocument annotatedDocument).troublesOf 99 = [⟨8, 99, .noChildExist⟩] := by
    cbv
  obtain ⟨report, after, scanned, passes⟩ := scansTo_iff.1 run
  simp only [Bool.and_eq_true, decide_eq_true_eq] at passes
  obtain ⟨⟨⟨deleted, troubles⟩, held⟩, listed⟩ := passes
  have annotates := annotates_of_scan (Ledger.sound_ofDocument annotatedDocument)
    (Ledger.tagged_ofDocument annotatedDocument) scanned
  refine ⟨report, after, scanned, deleted, troubles, ?_, ?_, ?_, ?_⟩
  · exact annotates.agrees (r := ⟨⟨1, "09M", .sample 2024 4 1, .specifiedMinutes, some 70, none⟩, 1⟩)
      (by rw [queue]; exact List.mem_cons_self) held
  · apply annotates.keeps _ held listed
    · intro u hu same
      rw [own] at hu
      simp only [List.mem_cons, List.not_mem_nil, or_false] at hu
      rcases hu with rfl | rfl | rfl
      · cases same
      · exact Nat.le_refl _
      · exact Nat.le_succ _
    · rw [stored]
      simp [annotatedDocument]
  · exact annotates.clears (deleted ▸ List.mem_singleton_self 3)
  · rw [← elsewhere]
    apply annotates.spares
    · intro r hr
      rw [queue] at hr
      simp only [sampleDocument, List.mem_cons, List.not_mem_nil, or_false] at hr
      rcases hr with rfl | rfl | rfl <;> simp
    · rw [deleted]
      simp

end ScanContext

end Entitlement
