import Entitlement.Proofs.Ledger.Counting
import Entitlement.Proofs.Scan.Places
import Entitlement.Proofs.Scan.Unrepaired

/-!
A scan accounts for all that it writes. Its repairs touch only records of the person under a contract whose
codes automatic categories replace with, they never plan to delete a record that is gone, and the count of
writes goes up by what the report lists and the attendance days that are new. So the report says that nothing
was written just if the ledger is the same.
-/

namespace Entitlement

namespace Ledger

/-- Of records that are there, none is found gone while they are deleted, each once. -/
theorem removeAll_skipped {ledger : Ledger} {ids : List AbsenceId} (once : ids.Nodup)
    (held : ∀ id ∈ ids, ledger.holds id = true) : (ledger.removeAll ids).2.1 = [] := by
  induction ids generalizing ledger with
  | nil => rfl
  | cons id rest ih =>
    obtain ⟨ahead, behind⟩ := List.nodup_cons.1 once
    have here := held id List.mem_cons_self
    have still : ∀ other ∈ rest, (ledger.removeAbsence id).2.holds other = true := by
      intro other hother
      have different : other ≠ id := fun same => ahead (same ▸ hother)
      rw [holds, removeAbsence_record?, if_neg different]
      exact held other (List.mem_cons_of_mem _ hother)
    have found : (ledger.removeAbsence id).1 = true := by
      unfold removeAbsence
      rw [if_pos here]
    simp only [removeAll, found, if_true]
    exact ih behind still

theorem skipped_of_carryOut {ledger after : Ledger} {repair : Repair} {effect : RepairEffect}
    (h : carryOut repair ledger = .ok effect after) (once : (repair.removals.map (·.absence)).Nodup)
    (held : ∀ id ∈ repair.removals.map (·.absence), ledger.holds id = true) : effect.skipped = [] := by
  obtain ⟨-, skipped, -⟩ := carryOut_steps h
  rw [skipped]
  exact removeAll_skipped once held

end Ledger

namespace ScanContext

variable {context : ScanContext} {scope : ScanScope}

/-- A record that repairs of a scan may touch: the person's, under a contract, of a code that an automatic
category replaces with. -/
structure Touchable (context : ScanContext) (scope : ScanScope) (a : Absence) : Prop where
  mine : a.person = scope.person
  covered : scope.isCovered a = true
  replaces : ∃ category ∈ context.rules.all, category.automatic = true ∧ category.replaces a.code = true

structure Books (context : ScanContext) (scope : ScanScope) (deleted : List AbsenceId)
    (inserted : List Absence) (before after : Ledger) : Prop where
  deletes {id : AbsenceId} : id ∈ deleted →
    ∃ a, (a ∈ before.records ∨ a ∈ inserted) ∧ a.id = id ∧ context.Touchable scope a
  inserts {a : Absence} : a ∈ inserted → context.Touchable scope a ∧ a.minutes = none ∧ after.Posts a
  counts : Ledger.Counts (deleted.length + inserted.length) before after

theorem Books.nothing (ledger : Ledger) : Books context scope [] [] ledger ledger where
  deletes h := absurd h List.not_mem_nil
  inserts h := absurd h List.not_mem_nil
  counts := .nothing ledger

theorem Books.trans {first second third : Ledger} {deleted deleted' : List AbsenceId}
    {inserted inserted' : List Absence} (writes : Writes scope deleted inserted first second)
    (before : Books context scope deleted inserted first second)
    (after : Books context scope deleted' inserted' second third) :
    Books context scope (deleted ++ deleted') (inserted ++ inserted') first third where
  deletes h := by
    rcases List.mem_append.1 h with early | late
    · obtain ⟨a, source, named, touchable⟩ := before.deletes early
      exact ⟨a, source.imp_right (List.mem_append_left _), named, touchable⟩
    · obtain ⟨a, source, named, touchable⟩ := after.deletes late
      refine ⟨a, ?_, named, touchable⟩
      rcases source with between | new
      · exact (writes.records.1 between).1.imp_right (List.mem_append_left _)
      · exact .inr (List.mem_append_right _ new)
  inserts h := by
    rcases List.mem_append.1 h with early | late
    · obtain ⟨touchable, minutes, posts⟩ := before.inserts early
      exact ⟨touchable, minutes, posts.later after.counts⟩
    · exact after.inserts late
  counts := by
    rw [List.length_append, List.length_append, Nat.add_add_add_comm]
    exact before.counts.trans after.counts

/-- What one visit writes is in scope and counted, and it never finds a record gone. -/
theorem Visited.books {visit : Visit} {ledger after : Ledger}
    (visited : Visited context scope visit.record visit.category ledger visit.result after)
    (sound : ledger.Sound) :
    Books context scope visit.effect.deleted visit.effect.inserted ledger after ∧
      visit.effect.skipped = [] := by
  obtain ⟨record, name, result⟩ := visit
  cases visited with
  | aborted _ => exact ⟨.nothing ledger, rfl⟩
  | childMissing _ _ => exact ⟨.nothing ledger, rfl⟩
  | noPeriods _ _ _ => exact ⟨.nothing ledger, rfl⟩
  | @repaired _ chain repair effect built _ _ planned carried =>
    obtain ⟨mine, amends⟩ := chainAround_amends sound built planned carried
    obtain ⟨counts, made⟩ := Ledger.carryOut_counts carried
    have removals : repair.removals.map (·.absence) = chain.removals.map (·.absence) :=
      congrArg (List.map _) (Chain.repair_ok planned).2.1
    have touchable {a : Absence} (h : chain.Replaceable a) : context.Touchable scope a := by
      obtain ⟨covered, category, walk, automatic, replaces⟩ := touched_of_chainAround built h
      exact ⟨h.1.trans mine, covered, category, walk.known, automatic, replaces⟩
    refine ⟨⟨fun {id} h => ?_, fun {a} ha => ?_, counts⟩, ?_⟩
    · have planned : id ∈ chain.removals.map (·.absence) :=
        removals ▸ ((Ledger.deleted_of_carryOut carried).1 h).1
      obtain ⟨a, ha, rfl⟩ := amends.held planned
      exact ⟨a, .inl ha, rfl, touchable (amends.removes ha planned)⟩
    · exact ⟨touchable (amends.writes ha).2.2, made a ha⟩
    · apply Ledger.skipped_of_carryOut carried
      · exact removals ▸ chain.removals_nodup
      · intro id planned
        obtain ⟨a, ha, rfl⟩ := amends.held (removals ▸ planned)
        exact sound.holds_of_mem ha

/-- What all visits of a scan write is in scope and counted, and none finds a record gone. -/
theorem Visits.books {ledger after : Ledger} {visits : List Visit}
    (run : Visits context scope ledger visits after) (sound : ledger.Sound) :
    Books context scope (deletedBy visits) (insertedBy visits) ledger after ∧
      visits.flatMap (·.effect.skipped) = [] := by
  induction run with
  | done => exact ⟨.nothing _, rfl⟩
  | step first _ ih =>
    obtain ⟨books, none⟩ := first.books sound
    obtain ⟨books', none'⟩ := ih (first.later sound).sound
    refine ⟨books.trans (first.writes sound).1 books', ?_⟩
    rw [List.flatMap_cons, none, none']
    rfl

structure Accounts (context : ScanContext) (scope : ScanScope) (before after : Ledger)
    (report : Report) : Prop where
  sound : after.Sound
  records {a : Absence} : a ∈ after.records ↔
    (a ∈ before.records ∨ a ∈ report.inserted) ∧ a.id ∉ report.deleted
  deleted {id : AbsenceId} : id ∈ report.deleted →
    ∃ a, (a ∈ before.records ∨ a ∈ report.inserted) ∧ a.id = id ∧ context.Touchable scope a
  inserted {a : Absence} : a ∈ report.inserted → context.Touchable scope a ∧ before.nextId ≤ a.id ∧
    a.kind = .nothing ∧ a.minutes = none ∧ after.Posts a
  skipped : report.skipped = []
  counts : Ledger.Counts (report.inserted.length + report.deleted.length + report.troubles.added +
    report.troubles.removed) before after
  same : report.changesNothing = true ↔ after = before
  contents : after.absences = before.absences → after.troubles = before.troubles →
    after.nextId = before.nextId → report.changesNothing = true

theorem changesNothing_iff {report : Report} : report.changesNothing = true ↔
    report.inserted = [] ∧ report.deleted = [] ∧ report.troubles.added = 0 ∧
      report.troubles.removed = 0 := by
  simp only [Report.changesNothing, Bool.and_eq_true, List.isEmpty_iff, decide_eq_true_eq, and_assoc]

/-- A scan that leaves records, annotations and the next identifier as they were has written nothing. -/
theorem nothing_of_contents {ledger between after : Ledger} {agenda : Agenda} {visits : List Visit}
    {touched : AbsenceId → Prop} {wanted : AbsenceId → OrderedSet Problem} {count : TroubleCount}
    (sound : ledger.Sound) (visited : context.visitAll scope agenda ledger = .ok visits between)
    (run : Visits context scope ledger visits between)
    (reconciles : Ledger.Reconciles touched wanted between after count)
    (absences : after.absences = ledger.absences) (troubles : after.troubles = ledger.troubles)
    (nextId : after.nextId = ledger.nextId) :
    insertedBy visits = [] ∧ deletedBy visits = [] ∧ count.added = 0 ∧ count.removed = 0 := by
  obtain ⟨writes, -⟩ := run.writes sound
  obtain ⟨books, -⟩ := run.books sound
  have soundBetween := (run.later sound).sound
  have given : between.nextId ≤ ledger.nextId := nextId ▸ reconciles.nextId
  have records : between.records = ledger.records := by
    rw [Ledger.records, ← reconciles.absences, absences]
    rfl
  have inserted : insertedBy visits = [] := by
    apply List.eq_nil_iff_forall_not_mem.2
    intro a ha
    have fresh := (writes.inserts ha).1
    have below : a.id < between.nextId := by
      by_cases gone : a.id ∈ deletedBy visits
      · exact writes.deletes gone
      · exact soundBetween.below (soundBetween.mem_records_iff.1 (writes.records.2 ⟨.inr ha, gone⟩))
    exact Nat.not_lt.2 fresh (Nat.lt_of_lt_of_le below given)
  have deleted : deletedBy visits = [] := by
    apply List.eq_nil_iff_forall_not_mem.2
    intro id gone
    obtain ⟨a, old | new, rfl, -⟩ := books.deletes gone
    · exact (writes.records.1 (records ▸ old)).2 gone
    · exact absurd new (inserted ▸ List.not_mem_nil)
  obtain ⟨rfl, -⟩ := visitAll_unrepaired sound visited deleted inserted
  obtain ⟨kept, written, rewrites⟩ := reconciles.rewrites
  have annotations : after.annotations = between.annotations := congrArg OrderedMap.values troubles
  have none : written = [] := by
    apply List.eq_nil_iff_forall_not_mem.2
    intro t ht
    have below := reconciles.tagged.id_lt (rewrites.mem.2 (.inr ht))
    rw [nextId] at below
    exact Nat.not_lt.2 (rewrites.fresh ht).2 below
  refine ⟨inserted, deleted, rewrites.added.trans (congrArg List.length none), ?_⟩
  have all := rewrites.annotations
  rw [annotations, none, List.append_nil] at all
  rw [rewrites.removed]
  apply List.countP_eq_zero.2
  intro t ht
  rw [List.filter_eq_self.1 all.symm t ht]
  exact Bool.false_ne_true

/-- A scan accounts for all that it writes, whatever the rules. The records after it are those before and those
it lists as inserted, without those it lists as deleted; all of these are in scope, and no deletion was
planned in vain. The writes are counted exactly, and the report says that nothing was written just if the
ledger is the same. -/
theorem scan_accounts {ledger after : Ledger} {report : Report} (sound : ledger.Sound)
    (tagged : ledger.Tagged) (ok : context.scan scope ledger = .ok report after) :
    Accounts context scope ledger after report := by
  obtain ⟨visits, between, troubles, visited, reconciled, rfl⟩ := scan_ok ok
  have run := (visitAll_covers (agenda_distinct context scope) visited).run
  obtain ⟨writes, -⟩ := run.writes sound
  obtain ⟨books, skipped⟩ := run.books sound
  have reconciles := Ledger.reconcile_ok (filed_agenda context scope).once (run.tagged sound tagged) reconciled
  have annotating := Ledger.reconcile_counts reconciled
  have contents (absences : after.absences = ledger.absences) (same : after.troubles = ledger.troubles)
      (nextId : after.nextId = ledger.nextId) :=
    nothing_of_contents sound visited run reconciles absences same nextId
  have settled := (run.later sound).sound.later_of_absences reconciles.absences reconciles.nextId
  refine ⟨settled.sound, fun {a} => ?_, books.deletes, fun {a} ha => ?_, skipped, ?_, ⟨fun nothing => ?_, ?_⟩,
    fun absences same nextId => changesNothing_iff.2 (contents absences same nextId)⟩
  · rw [Ledger.records, reconciles.absences]
    exact writes.records
  · obtain ⟨touchable, minutes, posts⟩ := books.inserts ha
    obtain ⟨fresh, -, kind⟩ := writes.inserts ha
    exact ⟨touchable, fresh, kind, minutes, posts.later annotating⟩
  · have all := books.counts.trans annotating
    rw [Nat.add_comm (deletedBy visits).length, ← Nat.add_assoc] at all
    exact all
  · obtain ⟨inserted, deleted, added, removed⟩ := changesNothing_iff.1 nothing
    obtain ⟨rfl, -⟩ := visitAll_unrepaired sound visited deleted inserted
    exact Ledger.reconcile_none reconciled added removed
  · rintro rfl
    exact changesNothing_iff.2 (contents rfl rfl rfl)

/-- The scan of the sample deletes a record, writes one on a new attendance day, and changes annotations. -/
theorem sample_accounted : ∃ report after,
    sample.scan sampleScope (.ofDocument sampleDocument) = .ok report after ∧
      report.deleted = [3] ∧ report.inserted.length = 1 ∧ report.troubles = ⟨2, 1⟩ ∧
      Accounts sample sampleScope (.ofDocument sampleDocument) after report := by
  obtain ⟨report, after, scanned, deleted, inserted, troubles⟩ := sample_repairs
  have accounts := scan_accounts (Ledger.sound_ofDocument sampleDocument)
    (Ledger.tagged_ofDocument sampleDocument) scanned
  exact ⟨report, after, scanned, deleted, inserted, troubles, accounts⟩

end ScanContext

end Entitlement
