import Entitlement.Proofs.Scan.Verdicts
import Entitlement.Scan.Run

/-!
What a report lists with a scanned record: the problems it has whatever its categories, and those that
some visit finds.
-/

namespace Entitlement

namespace ScanContext

variable {context : ScanContext} {scope : ScanScope}

abbrev agenda (context : ScanContext) (scope : ScanScope) : Agenda :=
  .ofRecords context.rules context.settings scope.records

abbrev findingsOf (context : ScanContext) (scope : ScanScope) (ledger : Ledger) (visits : List Visit) :
    Findings :=
  visits.foldl (fun findings visit => visit.report findings)
    (scope.standaloneFindings ledger (context.agenda scope).records)

theorem filed_agenda (context : ScanContext) (scope : ScanScope) :
    (context.agenda scope).Filed context.rules context.settings scope.records :=
  Agenda.filed_ofRecords context.rules context.settings scope.records

theorem agenda_distinct (context : ScanContext) (scope : ScanScope) :
    ∀ a ∈ (context.agenda scope).rest, ∀ b ∈ (context.agenda scope).rest, a.id = b.id → a = b := by
  have filed := filed_agenda context scope
  rw [filed.rest]
  exact fun a ha b hb => filed.distinct ha hb

/-- A scan that succeeds has made all its visits and reconciled the annotations with their findings. -/
theorem scan_ok {ledger after : Ledger} {report : Report}
    (h : context.scan scope ledger = .ok report after) :
    ∃ visits between troubles, context.visitAll scope (context.agenda scope) ledger = .ok visits between ∧
      Ledger.reconcile (removedBy visits) (context.findingsOf scope ledger visits)
        ((context.agenda scope).records.map (·.id)) between = .ok troubles after ∧
      report = .ofVisits scope (context.agenda scope) visits (context.findingsOf scope ledger visits)
        troubles := by
  unfold scan at h
  dsimp only at h
  split at h
  · cases h
  · cases h
  · next visits between visited =>
    split at h
    · cases h
    · cases h
    · next troubles after reconciled =>
      cases h
      exact ⟨visits, between, troubles, visited, reconciled, rfl⟩

/-- A scan whose visits and reconciling succeed. -/
theorem scan_of {ledger between after : Ledger} {visits : List Visit} {troubles : TroubleCount}
    (visited : context.visitAll scope (context.agenda scope) ledger = .ok visits between)
    (reconciled : Ledger.reconcile (removedBy visits) (context.findingsOf scope ledger visits)
      ((context.agenda scope).records.map (·.id)) between = .ok troubles after) :
    context.scan scope ledger = .ok (.ofVisits scope (context.agenda scope) visits
      (context.findingsOf scope ledger visits) troubles) after := by
  unfold scan
  dsimp only
  rw [visited]
  dsimp only
  rw [reconciled]

def scansTo (context : ScanContext) (scope : ScanScope) (ledger : Ledger) (test : Report → Ledger → Bool) :
    Bool :=
  match context.scan scope ledger with
  | .ok report after => test report after
  | _ => false

theorem scansTo_iff {ledger : Ledger} {test : Report → Ledger → Bool} :
    context.scansTo scope ledger test = true ↔
      ∃ report after, context.scan scope ledger = .ok report after ∧ test report after = true := by
  unfold scansTo
  constructor
  · intro passes
    split at passes
    · next report after scanned => exact ⟨report, after, scanned, passes⟩
    · cases passes
  · rintro ⟨report, after, scanned, passes⟩
    rw [scanned]
    exact passes

/-- A report has the findings with the scanned records, and nothing with others. -/
theorem problemsOf_ofVisits {agenda : Agenda} {visits : List Visit} {findings : Findings}
    {troubles : TroubleCount} (id : AbsenceId) :
    (Report.ofVisits scope agenda visits findings troubles).problemsOf id =
      if agenda.contains id then findings.problemsOf id else ∅ := by
  unfold Report.problemsOf Report.ofVisits Findings.problemsOf
  dsimp only
  split
  · next inside =>
    congr 1
    apply Option.ext
    intro problems
    rw [OrderedMap.get?_filter_eq_some]
    exact and_iff_left inside
  · next outside =>
    have gone : (findings.problems.filter fun absence _ => agenda.contains absence).get? id = none := by
      apply Option.eq_none_iff_forall_ne_some.2
      intro problems held
      exact outside (OrderedMap.get?_filter_eq_some.1 held).2
    rw [gone]
    rfl

theorem lists_ofVisits {agenda : Agenda} {visits : List Visit} {findings : Findings}
    {troubles : TroubleCount} {id : AbsenceId} {problem : Problem} :
    (Report.ofVisits scope agenda visits findings troubles).lists id problem = true ↔
      agenda.contains id = true ∧ findings.contains id problem = true := by
  rw [Report.lists, problemsOf_ofVisits, Findings.contains]
  cases agenda.contains id with
  | true => simp
  | false => simp

private theorem contains_addProblems {id id' : AbsenceId} {problems : List Problem}
    {findings : Findings} {problem : Problem} :
    (problems.foldl (fun findings problem => findings.addProblem id problem) findings).contains
        id' problem = true ↔
      findings.contains id' problem = true ∨ (id' = id ∧ problem ∈ problems) := by
  induction problems generalizing findings with
  | nil => simp
  | cons first rest ih =>
    rw [List.foldl_cons, ih, Findings.contains_addProblem, List.mem_cons, or_assoc, ← and_or_left]

theorem contains_standalone {ledger : Ledger} {records : List Absence} {id : AbsenceId}
    {problem : Problem} :
    (scope.standaloneFindings ledger records).contains id problem = true ↔
      ∃ a ∈ records, id = a.id ∧ problem ∈ scope.standaloneProblems ledger a := by
  have fold (findings : Findings) :
      (records.foldl (fun findings record =>
        (scope.standaloneProblems ledger record).foldl
          (fun findings problem => findings.addProblem record.id problem) findings)
          findings).contains id problem = true ↔
        findings.contains id problem = true ∨
          ∃ a ∈ records, id = a.id ∧ problem ∈ scope.standaloneProblems ledger a := by
    induction records generalizing findings with
    | nil => simp
    | cons a rest ih =>
      rw [List.foldl_cons, ih, contains_addProblems, List.exists_mem_cons_iff, or_assoc]
  refine (fold ∅).trans (or_iff_right fun absurd => ?_)
  cases absurd

/-- What a scan finds with a record: its own problems, and what the visits hold against it. -/
theorem contains_findings {agenda : Agenda} {source : List Absence} {rules : RuleTree}
    {settings : ScanSettings} (filed : agenda.Filed rules settings source) {r : Absence}
    (hr : r ∈ agenda.records) {ledger : Ledger} {visits : List Visit} {problem : Problem} :
    (visits.foldl (fun findings visit => visit.report findings)
        (scope.standaloneFindings ledger agenda.records)).contains r.id problem = true ↔
      problem ∈ scope.standaloneProblems ledger r ∨ ∃ visit ∈ visits, visit.finds r.id problem := by
  rw [Visit.contains_reports, contains_standalone]
  refine or_congr_left ⟨?_, fun own => ⟨r, hr, rfl, own⟩⟩
  rintro ⟨a, ha, same, own⟩
  rwa [filed.distinct hr ha same]

/-- No record exceeds a limit by itself. -/
theorem limitExceeded_not_standalone {ledger : Ledger} {r : Absence} :
    .limitExceeded ∉ scope.standaloneProblems ledger r := by
  simp only [ScanScope.standaloneProblems, Absence.sameDayProblems, List.mem_append]
  rintro (own | duplicate | conflict)
  · split at own <;> simp at own
  · split at duplicate <;> simp at duplicate
  · split at conflict <;> simp at conflict

/-- A loaded record stands in the agenda of the scan. -/
theorem mem_agenda {rules : RuleTree} {settings : ScanSettings} {ledger : Ledger}
    (sound : ledger.Sound) {source : List Absence} (loaded : ∀ a ∈ source, a ∈ ledger.records)
    {agenda : Agenda} (filed : agenda.Filed rules settings source) {r : Absence} (hr : r ∈ source) :
    r ∈ agenda.records := by
  obtain ⟨a, ha, same⟩ := filed.holds hr
  rwa [← sound.eq_of_id (loaded a (filed.origin ha)) (loaded r hr) same]

/-- Under coherent rules the visits of a scan hold against a record what the chains around it hold against
it, if it is under a contract. -/
theorem finds_iff_faults (coherent : context.Coherent scope) (indexed : context.rules.Indexed)
    {ledger between : Ledger} (sound : ledger.Sound)
    (loaded : ∀ a ∈ scope.records, a ∈ ledger.records) {visits : List Visit}
    (visited : context.visitAll scope (context.agenda scope) ledger = .ok visits between)
    (steady : ∀ first between, Visits context scope ledger first between → ∀ record name,
      context.verdict scope record name between = context.verdict scope record name ledger)
    {r : Absence} (hr : r ∈ scope.records) (problem : Problem) :
    (∃ visit ∈ visits, visit.finds r.id problem) ↔
      scope.isCovered r = true ∧ ∃ c ∈ context.rules.categoriesFor r.code,
        context.settings.excludes c = false ∧ ∃ chain,
          context.chainAround scope r c.name ledger = .ok chain ∧ chain.faults r.id problem := by
  have filed := filed_agenda context scope
  exact finds_iff coherent indexed filed (visitAll_covers (agenda_distinct context scope) visited) sound
    loaded steady (mem_agenda sound loaded filed hr) problem

end ScanContext

end Entitlement
