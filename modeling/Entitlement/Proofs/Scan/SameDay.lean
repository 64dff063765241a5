import Entitlement.Proofs.Scan.Idempotence

/-!
The problems that records give each other by standing on one date. A scan lists them as they are in the
ledger before it. Its repairs may then delete a record, or what it clashed with; but what they write clashes
with no record that is left.
-/

namespace Entitlement

/-- A record gives another of the same person and date a problem: it has the same code, or the two conflict
over the whole day. -/
structure Absence.Causes (other record : Absence) (problem : Problem) : Prop where
  apart : other.id ≠ record.id
  person : other.person = record.person
  date : other.date = record.date
  clash : (problem = .duplicateCode ∧ other.code = record.code) ∨
    (problem = .allDayAlreadyExists ∧ record.conflictsWith other = true)

namespace ScanContext

variable {context : ScanContext} {scope : ScanScope} {ledger after : Ledger} {r : Absence}
  {problem : Problem}

/-- The problems that come from other records of the date. -/
theorem mem_standaloneProblems (mine : r.person = scope.person)
    (sameDay : problem = .duplicateCode ∨ problem = .allDayAlreadyExists) :
    problem ∈ scope.standaloneProblems ledger r ↔ ∃ o ∈ ledger.records, o.Causes r problem := by
  have clashes : problem ∈ scope.standaloneProblems ledger r ↔
      ∃ o ∈ (ledger.absencesIn scope.person r.date r.date).filter fun o => o.id ≠ r.id,
        (problem = .duplicateCode ∧ o.code = r.code) ∨
          (problem = .allDayAlreadyExists ∧ r.conflictsWith o = true) := by
    simp only [ScanScope.standaloneProblems, Absence.sameDayProblems]
    generalize (ledger.absencesIn scope.person r.date r.date).filter (fun o => o.id ≠ r.id) = others
    rcases sameDay with rfl | rfl
    · simp
    · simp
  rw [clashes]
  refine exists_congr fun o => ?_
  rw [mem_sameDay, ← mine]
  constructor
  · rintro ⟨⟨mem, person, date, apart⟩, clash⟩
    exact ⟨mem, apart, person, date, clash⟩
  · rintro ⟨mem, apart, person, date, clash⟩
    exact ⟨⟨mem, person, date, apart⟩, clash⟩

/-- Visits find exceeded limits and missing children, and nothing else. -/
theorem Visits.finds {visits : List Visit} (run : Visits context scope ledger visits after)
    {id : AbsenceId} (found : ∃ visit ∈ visits, visit.finds id problem) :
    problem = .limitExceeded ∨ problem = .noChildExist := by
  obtain ⟨visit, hv, found⟩ := found
  obtain ⟨before, between, first, rest, -, visited, -⟩ := run.split hv
  obtain ⟨chain, built, ⟨-, missing, -⟩ | flag⟩ := visited.of_finds found
  · exact .inr missing
  · obtain ⟨laid, hlaid, filled⟩ := chainAround_ok built
    exact .inl (Chain.fill_flags hlaid filled flag).1

/-- What a report says of the problems that a record has from other records of its date. -/
structure SameDay (report : Report) (before after : Ledger) (r : Absence) (problem : Problem) : Prop where
  /-- The problem is listed if the ledger before the scan holds a record that causes it. -/
  lists : report.lists r.id problem = true ↔ ∃ o ∈ before.records, o.Causes r problem
  /-- For a record that is left, it is listed if a record that causes it is left or was deleted. -/
  left : after.holds r.id = true → (report.lists r.id problem = true ↔
    ∃ o, o.Causes r problem ∧ (o ∈ after.records ∨ (o ∈ before.records ∧ o.id ∈ report.deleted)))
  /-- Where nothing of this was deleted, the ledger after the scan says the same. -/
  kept : r.id ∉ report.deleted → (∀ o ∈ before.records, o.Causes r problem → o.id ∉ report.deleted) →
    (report.lists r.id problem = true ↔
      after.holds r.id = true ∧ ∃ o ∈ after.records, o.Causes r problem)
  /-- What the scan has written causes no problem for a record that is left, whether it is left itself or was
  deleted again. -/
  harmless : after.holds r.id = true → ∀ o ∈ report.inserted, ¬ o.Causes r problem

/-- A scan lists a problem from another record of the date exactly if the ledger before it holds such a
record. The ledger after it holds one too, unless the scan has deleted the record or all that cause the
problem. -/
theorem sameDay_of_scan (sound : ledger.Sound) (tagged : ledger.Tagged)
    (loaded : ∀ a ∈ scope.absences, a ∈ ledger.records) {report : Report}
    (ok : context.scan scope ledger = .ok report after) (queued : r ∈ scope.records)
    (sameDay : problem = .duplicateCode ∨ problem = .allDayAlreadyExists) :
    SameDay report ledger after r problem := by
  obtain ⟨visits, between, troubles, visited, reconciled, rfl⟩ := scan_ok ok
  have filed := filed_agenda context scope
  have loaded' : ∀ a ∈ scope.records, a ∈ ledger.records :=
    fun a ha => loaded a (List.mem_filter.1 ha).1
  have listed := mem_agenda sound loaded' filed queued
  have run := (visitAll_covers (agenda_distinct context scope) visited).run
  obtain ⟨writes, -⟩ := run.writes sound
  have absences := (Ledger.reconcile_ok filed.once (run.tagged sound tagged) reconciled).absences
  have records : after.records = between.records := congrArg OrderedMap.values absences
  have mine : r.person = scope.person := by
    have own := (List.mem_filter.1 queued).2
    rw [Bool.and_eq_true, decide_eq_true_eq] at own
    exact own.1
  have known : r ∈ ledger.records := loaded' r queued
  have here : after.holds r.id = true ↔ r.id ∉ deletedBy visits := by
    rw [Ledger.holds_congr absences, run.holds_iff sound known]
  have lists : (Report.ofVisits scope (context.agenda scope) visits
      (context.findingsOf scope ledger visits) troubles).lists r.id problem = true ↔
        ∃ o ∈ ledger.records, o.Causes r problem := by
    rw [lists_ofVisits, and_iff_right (Agenda.contains_iff.2 ⟨r, listed, rfl⟩),
      contains_findings filed listed, mem_standaloneProblems mine sameDay]
    refine or_iff_left fun found => ?_
    rcases run.finds found with rfl | rfl
    · rcases sameDay with same | same <;> cases same
    · rcases sameDay with same | same <;> cases same
  have harmless {o : Absence} (stays : r.id ∉ deletedBy visits) (written : o ∈ insertedBy visits) :
      ¬ o.Causes r problem := by
    intro causes
    rcases causes.clash with ⟨-, code⟩ | ⟨-, conflict⟩
    · exact writes.lacked written known stays ⟨causes.person.symm, causes.date.symm, code.symm⟩
    · rw [not_conflicts_of_nothing (.inr (writes.inserts written).2.2)] at conflict
      cases conflict
  have old {o : Absence} (stays : r.id ∉ deletedBy visits) (causes : o.Causes r problem)
      (ho : o ∈ after.records) : o ∈ ledger.records := by
    rw [records, writes.records] at ho
    exact ho.1.resolve_right fun written => harmless stays written causes
  refine ⟨lists, fun held => ?_, fun stays spared => ?_, fun held o => harmless (here.1 held)⟩
  · rw [lists]
    constructor
    · rintro ⟨o, ho, causes⟩
      by_cases gone : o.id ∈ deletedBy visits
      · exact ⟨o, causes, .inr ⟨ho, gone⟩⟩
      · exact ⟨o, causes, .inl (records ▸ writes.records.2 ⟨.inl ho, gone⟩)⟩
    · rintro ⟨o, causes, ho | ⟨ho, -⟩⟩
      · exact ⟨o, old (here.1 held) causes ho, causes⟩
      · exact ⟨o, ho, causes⟩
  · rw [lists, and_iff_right (here.2 stays)]
    constructor
    · rintro ⟨o, ho, causes⟩
      exact ⟨o, records ▸ writes.records.2 ⟨.inl ho, spared o ho causes⟩, causes⟩
    · rintro ⟨o, ho, causes⟩
      exact ⟨o, old stays causes ho, causes⟩

/-- Half an hour of overtime, and two records on its date that replace more: one for a whole day. -/
def clashDocument : LedgerDocument :=
  { sampleDocument with
    absences := [⟨⟨1, "09M", .sample 2024 4 1, .specifiedMinutes, some 30, none⟩, 1⟩,
      ⟨⟨1, "09H1", .sample 2024 4 1, .allDay, none, none⟩, 2⟩,
      ⟨⟨1, "09H1", .sample 2024 4 1, .nothing, none, none⟩, 3⟩]
    troubles := [] }

def clashScope : ScanScope :=
  .ofLedger (.ofDocument clashDocument) clashDocument.persons 1 .minimum

/-- The scan of the clash deletes both of the records that replace, and lists what they have caused. -/
theorem clash_scanned : ∃ report after,
    sample.scan clashScope (.ofDocument clashDocument) = .ok report after ∧
      report.deleted = [2, 3] ∧ after.records.map (·.id) = [1] ∧ after.holds 1 = true ∧
      after.holds 2 = false ∧ report.lists 1 .allDayAlreadyExists = true ∧
      report.lists 2 .duplicateCode = true := by
  have run : sample.scansTo clashScope (.ofDocument clashDocument) (fun report after =>
      decide (report.deleted = [2, 3] ∧ after.records.map (·.id) = [1] ∧ after.holds 1 = true ∧
        after.holds 2 = false ∧ report.lists 1 .allDayAlreadyExists = true ∧
        report.lists 2 .duplicateCode = true)) = true := by cbv
  obtain ⟨report, after, scanned, passes⟩ := scansTo_iff.1 run
  exact ⟨report, after, scanned, of_decide_eq_true passes⟩

theorem clash_queue : clashScope.records = clashDocument.absences := by cbv

/-- The overtime is listed with a conflict, and nothing is left that it conflicts with; the first of the
deleted records is listed with a duplicate. -/
theorem clash_outlived : ∃ report after,
    sample.scan clashScope (.ofDocument clashDocument) = .ok report after ∧
      (∃ r ∈ clashScope.records, after.holds r.id = true ∧
        report.lists r.id .allDayAlreadyExists = true ∧
        ∀ o ∈ after.records, ¬ o.Causes r .allDayAlreadyExists) ∧
      ∃ r ∈ clashScope.records, report.lists r.id .duplicateCode = true ∧ after.holds r.id = false := by
  obtain ⟨report, after, scanned, -, left, first, second, conflict, duplicate⟩ := clash_scanned
  refine ⟨report, after, scanned, ⟨⟨⟨1, "09M", .sample 2024 4 1, .specifiedMinutes, some 30, none⟩, 1⟩,
    ?_, first, conflict, fun o ho causes => causes.apart ?_⟩,
    ⟨⟨1, "09H1", .sample 2024 4 1, .allDay, none, none⟩, 2⟩, ?_, duplicate, second⟩
  · rw [clash_queue]
    exact List.mem_cons_self
  · have only := List.mem_map_of_mem (f := (·.id)) ho
    rw [left, List.mem_singleton] at only
    exact only
  · rw [clash_queue]
    exact List.mem_cons_of_mem _ List.mem_cons_self

/-- The overtime is listed with its conflict, although what it conflicted with is gone; a duplicate it
neither had nor has. -/
theorem overtime_in_conflict : ∃ report after,
    sample.scan clashScope (.ofDocument clashDocument) = .ok report after ∧ report.deleted = [2, 3] ∧
      report.lists 1 .allDayAlreadyExists = true ∧ report.lists 1 .duplicateCode = false := by
  obtain ⟨report, after, scanned, deleted, left, -⟩ := clash_scanned
  have records : (Ledger.ofDocument clashDocument).records = clashDocument.absences := by cbv
  have loaded : ∀ a ∈ clashScope.absences, a ∈ (Ledger.ofDocument clashDocument).records :=
    fun a ha => (Ledger.mem_absencesIn.1 ha).1
  have queued : ⟨⟨1, "09M", .sample 2024 4 1, .specifiedMinutes, some 30, none⟩, 1⟩ ∈
      clashScope.records := by
    rw [clash_queue]
    exact List.mem_cons_self
  have verdict {problem : Problem}
      (sameDay : problem = .duplicateCode ∨ problem = .allDayAlreadyExists) :=
    sameDay_of_scan (Ledger.sound_ofDocument clashDocument) (Ledger.tagged_ofDocument clashDocument)
      loaded scanned queued sameDay
  refine ⟨report, after, scanned, deleted, (verdict (.inr rfl)).lists.2 ?_, ?_⟩
  · refine ⟨⟨⟨1, "09H1", .sample 2024 4 1, .allDay, none, none⟩, 2⟩, ?_, by simp, rfl, rfl,
      .inr ⟨rfl, rfl⟩⟩
    rw [records]
    exact List.mem_cons_of_mem _ List.mem_cons_self
  · rw [Bool.eq_false_iff, ne_eq, (verdict (.inl rfl)).kept]
    · rintro ⟨-, o, ho, causes⟩
      have only := List.mem_map_of_mem (f := (·.id)) ho
      rw [left, List.mem_singleton] at only
      exact causes.apart only
    · simp [deleted]
    · intro o ho causes
      rw [records] at ho
      simp only [clashDocument, List.mem_cons, List.not_mem_nil, or_false] at ho
      rcases ho with rfl | rfl | rfl
      · exact absurd rfl causes.apart
      · rcases causes.clash with ⟨-, code⟩ | ⟨conflict, -⟩
        · exact absurd code (by decide)
        · cases conflict
      · rcases causes.clash with ⟨-, code⟩ | ⟨conflict, -⟩
        · exact absurd code (by decide)
        · cases conflict

end ScanContext

end Entitlement
