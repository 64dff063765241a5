import Entitlement.Proofs.Scan.Idempotence

/-!
A scan that has repaired nothing is a fixed point, whatever the rules. Neither chains nor repairs read
annotations, so a second scan makes the same visits; what it finds is annotated by then.
-/

namespace Entitlement

/-- A repair that plans nothing is the empty one of its person. -/
theorem Repair.eq_of_isEmpty {repair : Repair} (h : repair.isEmpty = true) :
    repair = ⟨repair.person, [], []⟩ := by
  obtain ⟨person, removals, additions⟩ := repair
  obtain ⟨none, nothing⟩ := (Bool.and_eq_true _ _).mp h
  obtain rfl : removals = [] := List.isEmpty_iff.1 none
  obtain rfl : additions = [] := List.isEmpty_iff.1 nothing
  rfl

namespace ScanContext

variable {context : ScanContext} {scope : ScanScope}

/-- A repair after which nothing is deleted and nothing written has planned nothing. -/
theorem repair_isEmpty_of_effect {record : Absence} {name : CategoryName} {ledger after : Ledger}
    (sound : ledger.Sound) {chain : Chain}
    (built : context.chainAround scope record name ledger = .ok chain) {repair : Repair}
    (planned : chain.repair context.rules = .ok repair) {effect : RepairEffect}
    (carried : Ledger.carryOut repair ledger = .ok effect after) (deleted : effect.deleted = [])
    (inserted : effect.inserted = []) : repair.isEmpty = true := by
  obtain ⟨-, amends⟩ := chainAround_amends sound built planned carried
  obtain ⟨-, -, -, made⟩ := Ledger.carryOut_ok sound carried
  have removals : repair.removals = chain.removals := (Chain.repair_ok planned).2.1
  rw [Repair.isEmpty, Bool.and_eq_true, List.isEmpty_iff, List.isEmpty_iff]
  constructor
  · apply List.map_eq_nil_iff.1
    apply List.eq_nil_iff_forall_not_mem.2
    intro id planned
    obtain ⟨a, ha, rfl⟩ := amends.held (removals ▸ planned)
    have gone : a.id ∈ effect.deleted :=
      (Ledger.deleted_of_carryOut carried).2 ⟨planned, sound.holds_of_mem ha⟩
    rw [deleted] at gone
    exact List.not_mem_nil gone
  · rw [inserted] at made
    exact List.forall₂_nil_right_iff.1 made

/-- A visit that repairs nothing leaves the ledger alone, and is made alike on any ledger with the same
records. -/
theorem visit_unrepaired {record : Absence} {name : CategoryName} {ledger after : Ledger}
    (sound : ledger.Sound) {visit : Visit}
    (h : context.visit scope record name ledger = .ok visit after) (deleted : visit.effect.deleted = [])
    (inserted : visit.effect.inserted = []) : after = ledger ∧ visit.effect = .empty ∧
      ∀ other : Ledger, other.absences = ledger.absences →
        context.visit scope record name other = .ok visit other := by
  obtain ⟨made, category, result⟩ := visit
  obtain ⟨rfl, rfl, visited⟩ := visit_ok h
  dsimp only at visited
  cases visited with
  | aborted built =>
    refine ⟨rfl, rfl, fun other same => ?_⟩
    rw [ScanContext.visit, chainAround_absences same, built]
  | childMissing built missing =>
    refine ⟨rfl, rfl, fun other same => ?_⟩
    rw [ScanContext.visit, chainAround_absences same, built]
    exact if_pos missing
  | noPeriods built present none =>
    refine ⟨rfl, rfl, fun other same => ?_⟩
    rw [ScanContext.visit, chainAround_absences same, built]
    simp only [present, none, List.isEmpty_nil, Bool.false_eq_true, if_false, if_true]
  | repaired built present some planned carried =>
    have empty := Repair.eq_of_isEmpty
      (repair_isEmpty_of_effect sound built planned carried deleted inserted)
    rw [empty, Ledger.carryOut_nothing] at carried
    cases carried
    refine ⟨rfl, rfl, fun other same => ?_⟩
    rw [empty] at planned
    rw [ScanContext.visit, chainAround_absences same, built]
    simp only [present, List.isEmpty_iff, some, Bool.false_eq_true, if_false, planned,
      Ledger.carryOut_nothing]

/-- Visits that repair nothing leave the ledger alone, and are made alike on any ledger with the same
records. -/
theorem visitAll_unrepaired {agenda : Agenda} {ledger after : Ledger} (sound : ledger.Sound)
    {visits : List Visit} (h : context.visitAll scope agenda ledger = .ok visits after)
    (deleted : deletedBy visits = []) (inserted : insertedBy visits = []) : after = ledger ∧
      (∀ visit ∈ visits, visit.effect = .empty) ∧
      ∀ other : Ledger, other.absences = ledger.absences →
        context.visitAll scope agenda other = .ok visits other := by
  induction agenda using visitAll.induct scope generalizing visits with
  | case1 agenda next front =>
    rw [visitAll_none front] at h
    cases h
    refine ⟨rfl, fun visit hv => absurd hv List.not_mem_nil, fun other _ => ?_⟩
    rw [visitAll_none front]
    rfl
  | case2 agenda record name next front covered ih =>
    rw [visitAll_some front, if_pos covered] at h
    obtain ⟨visit, between, first, h⟩ := LedgerAction.bind_ok h
    obtain ⟨rest, _, later, h⟩ := LedgerAction.bind_ok h
    cases h
    obtain ⟨ownDeleted, restDeleted⟩ := List.append_eq_nil_iff.1 deleted
    obtain ⟨ownInserted, restInserted⟩ := List.append_eq_nil_iff.1 inserted
    obtain ⟨rfl, nothing, again⟩ := visit_unrepaired sound first ownDeleted ownInserted
    obtain ⟨rfl, others, onward⟩ := ih visit later restDeleted restInserted
    refine ⟨rfl, fun made hv => ?_, fun other same => ?_⟩
    · rcases List.mem_cons.1 hv with rfl | hv
      · exact nothing
      · exact others made hv
    · exact visitAll_of_visit front covered (again other same) (onward other same)
  | case3 agenda record name next front uncovered ih =>
    rw [visitAll_some front, if_neg uncovered] at h
    obtain ⟨rfl, nothing, again⟩ := ih h deleted inserted
    refine ⟨rfl, nothing, fun other same => ?_⟩
    rw [visitAll_some front, if_neg uncovered]
    exact again other same

theorem findingsOf_absences {before after : Ledger} (same : after.absences = before.absences)
    (visits : List Visit) :
    context.findingsOf scope after visits = context.findingsOf scope before visits := by
  simp only [findingsOf, ScanScope.standaloneFindings, standaloneProblems_absences same]

theorem ofLedger_absences {before after : Ledger} (same : after.absences = before.absences)
    (directory : Directory) (person : PersonId) (start : Date) :
    ScanScope.ofLedger after directory person start = .ofLedger before directory person start := by
  simp only [ScanScope.ofLedger, Ledger.absencesIn, same]

/-- A scan that has deleted no record and written none is a fixed point, whatever annotations it has written
or deleted: loaded and run again over the ledger that it has left, it succeeds, writes nothing and leaves
that ledger exactly as it is, and its report differs in the count of annotations alone. -/
theorem rescan_of_unrepaired {directory : Directory} {person : PersonId} {start : Date}
    {ledger after : Ledger} (sound : ledger.Sound) (tagged : ledger.Tagged) {report : Report}
    (ok : context.scan (.ofLedger ledger directory person start) ledger = .ok report after)
    (deleted : report.deleted = []) (inserted : report.inserted = []) :
    ∃ report', context.scan (.ofLedger after directory person start) after = .ok report' after ∧
      report'.changesNothing = true ∧ report' = { report with troubles := .zero } := by
  obtain ⟨visits, between, troubles, visited, reconciled, rfl⟩ := scan_ok ok
  have filed := filed_agenda context (.ofLedger ledger directory person start)
  obtain ⟨rfl, nothing, again⟩ := visitAll_unrepaired sound visited deleted inserted
  have reconciles := Ledger.reconcile_ok filed.once tagged reconciled
  have absences := reconciles.absences
  have untouched (id : AbsenceId) : (removedBy visits).contains id = false := by
    rw [Bool.eq_false_iff, ne_eq, OrderedSet.contains_iff, removedBy, OrderedSet.mem_ofList,
      List.mem_flatMap]
    rintro ⟨visit, hv, gone⟩
    rw [nothing visit hv] at gone
    exact List.not_mem_nil gone
  have annotated : ∀ id ∈ (context.agenda (.ofLedger between directory person start)).records.map (·.id),
      after.Annotated id ((context.findingsOf (.ofLedger between directory person start) between
        visits).problemsOf id) := by
    intro id hid
    obtain ⟨a, ha, rfl⟩ := List.mem_map.1 hid
    have loaded := (ScanScope.mem_records_ofLedger.1 (filed.origin ha)).1
    exact reconciles.annotated ⟨hid, untouched a.id⟩ (sound.holds_of_mem loaded)
  have quiet := Ledger.reconcile_annotated reconciles.tagged annotated (removedBy visits)
  have found : context.findingsOf (.ofLedger between directory person start) after visits =
      context.findingsOf (.ofLedger between directory person start) between visits :=
    findingsOf_absences absences visits
  rw [ofLedger_absences absences]
  refine ⟨_, scan_of (again after absences) (found ▸ quiet), ?_, ?_⟩
  · have deleted : visits.flatMap (·.effect.deleted) = [] := deleted
    have inserted : visits.flatMap (·.effect.inserted) = [] := inserted
    simp only [Report.changesNothing, Report.ofVisits, inserted, deleted]
    rfl
  · rw [found]
    rfl

def overtimeDocument : LedgerDocument :=
  { sampleDocument with
    absences := [⟨⟨1, "09M", .sample 2024 4 1, .specifiedMinutes, some 20, none⟩, 1⟩,
      ⟨⟨1, "09M", .sample 2024 4 1, .specifiedMinutes, some 30, none⟩, 2⟩]
    troubles := [⟨4, 1, .limitExceeded⟩, ⟨5, 2, .duplicateCode⟩, ⟨6, 2, .duplicateCode⟩] }

/-- A scan that repairs nothing and annotates one record anew, and the scan after it. -/
theorem overtime_rescanned : ∃ report after report',
    sample.scan (.ofLedger (.ofDocument overtimeDocument) overtimeDocument.persons 1 .minimum)
        (.ofDocument overtimeDocument) = .ok report after ∧
      report.deleted = [] ∧ report.inserted = [] ∧ report.troubles = ⟨1, 2⟩ ∧
      sample.scan (.ofLedger after overtimeDocument.persons 1 .minimum) after = .ok report' after ∧
      report'.changesNothing = true ∧ report' = { report with troubles := .zero } := by
  have run : sample.scansTo
      (.ofLedger (.ofDocument overtimeDocument) overtimeDocument.persons 1 .minimum)
      (.ofDocument overtimeDocument) (fun report _ => decide (report.deleted = []) &&
        decide (report.inserted = []) && decide (report.troubles = ⟨1, 2⟩)) = true := by cbv
  obtain ⟨report, after, scanned, passes⟩ := scansTo_iff.1 run
  simp only [Bool.and_eq_true, decide_eq_true_eq] at passes
  obtain ⟨⟨deleted, inserted⟩, troubles⟩ := passes
  obtain ⟨report', again, nothing, same⟩ := rescan_of_unrepaired
    (Ledger.sound_ofDocument overtimeDocument) (Ledger.tagged_ofDocument overtimeDocument) scanned
    deleted inserted
  exact ⟨report, after, report', scanned, deleted, inserted, troubles, again, nothing, same⟩

end ScanContext

end Entitlement
