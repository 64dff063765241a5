import Entitlement.Proofs.Replacing.Convergence
import Entitlement.Proofs.Scan.Outcome

/-!
A scan that is run again over the ledger it has left behind writes nothing and lists the same problems.
Every chain of the second run is one that the first has settled, or that a newcomer stands in; so no visit
repairs anything, the findings are those that are annotated already, and no annotation changes.
-/

namespace Entitlement

namespace ScanContext

variable {context : ScanContext} {scope : ScanScope}

theorem visit_quiet {record : Absence} {name : CategoryName} {ledger : Ledger}
    (quiet : context.Quiet scope record name ledger) :
    ∃ visit, context.visit scope record name ledger = .ok visit ledger ∧ visit.effect = .empty := by
  unfold ScanContext.visit
  cases built : context.chainAround scope record name ledger with
  | error error => exact ⟨_, rfl, rfl⟩
  | ok chain =>
    dsimp only
    split
    · exact ⟨_, rfl, rfl⟩
    · split
      · exact ⟨_, rfl, rfl⟩
      · rw [quiet chain built]
        dsimp only
        rw [Ledger.carryOut_nothing]
        exact ⟨_, rfl, rfl⟩

/-- If no chain around a pending pair has anything to repair, all visits succeed and write nothing. -/
theorem visitAll_quiet {agenda : Agenda} {ledger : Ledger}
    (quiet : ∀ a ∈ agenda.rest, ∀ name ∈ agenda.pendingFor a.id, scope.isCovered a = true →
      context.Quiet scope a name ledger) : ∃ visits,
      context.visitAll scope agenda ledger = .ok visits ledger ∧
        ∀ visit ∈ visits, visit.effect = .empty := by
  induction agenda using visitAll.induct scope with
  | case1 agenda next front =>
    rw [visitAll_none front]
    exact ⟨[], rfl, fun visit hv => absurd hv List.not_mem_nil⟩
  | case2 agenda record name next front covered ih =>
    obtain ⟨rfl, inside, pending⟩ := Agenda.nextPair_some front
    obtain ⟨visit, visited, nothing⟩ := visit_quiet (quiet record inside name pending covered)
    obtain ⟨rest, later, empty⟩ := ih visit fun a ha n wanted coveredA => by
      rw [Agenda.rest_strikePairs] at ha
      have wanted := (Agenda.mem_strike.1 (Agenda.mem_strikePairs.1 wanted).1).1
      exact quiet a (Agenda.mem_rest_of_advance ha) n wanted coveredA
    refine ⟨visit :: rest, visitAll_of_visit front covered visited later, fun other hv => ?_⟩
    rcases List.mem_cons.1 hv with rfl | hv
    · exact nothing
    · exact empty other hv
  | case3 agenda record name next front uncovered ih =>
    obtain ⟨rfl, inside, pending⟩ := Agenda.nextPair_some front
    rw [visitAll_some front, if_neg uncovered]
    apply ih
    intro a ha n wanted coveredA
    exact quiet a (Agenda.mem_rest_of_advance ha) n (Agenda.mem_strikeAll.1 wanted).1 coveredA

/-- Nothing is left to do in a ledger: no chain around a record has anything to repair, and the annotations
of the records are what they are found with. -/
structure AtRest (context : ScanContext) (scope : ScanScope) (ledger : Ledger) : Prop where
  quiet : ∀ a ∈ scope.records, scope.isCovered a = true → ∀ c ∈ context.rules.categoriesFor a.code,
    context.settings.excludes c = false → context.Quiet scope a c.name ledger
  annotated : ∀ a ∈ scope.records, ∀ wanted : OrderedSet Problem,
    (∀ problem, problem ∈ wanted ↔ context.FoundWith scope ledger a problem) →
      ledger.Annotated a.id wanted

/-- A scan over a ledger at rest succeeds and writes nothing. -/
theorem AtRest.scan (separated : context.Separated scope) (indexed : context.rules.Indexed)
    {ledger : Ledger} (atRest : context.AtRest scope ledger) (sound : ledger.Sound)
    (tagged : ledger.Tagged) (loaded : ∀ a ∈ scope.records, a ∈ ledger.records) :
    ∃ report, context.scan scope ledger = .ok report ledger ∧ report.changesNothing = true ∧
      ∀ a ∈ ledger.records, ∀ problem, report.lists a.id problem = true ↔
        a ∈ scope.records ∧ context.FoundWith scope ledger a problem := by
  have filed := filed_agenda context scope
  have quiet : ∀ a ∈ (context.agenda scope).rest, ∀ name ∈ (context.agenda scope).pendingFor a.id,
      scope.isCovered a = true → context.Quiet scope a name ledger := by
    intro a ha name pending covered
    rw [filed.rest] at ha
    rw [filed.pending ha, Agenda.mem_categoriesOf] at pending
    obtain ⟨c, hc, included, rfl⟩ := pending
    exact atRest.quiet a (filed.origin ha) covered c hc included
  obtain ⟨visits, visited, nothing⟩ := visitAll_quiet quiet
  have found {a : Absence} (ha : a ∈ scope.records) (problem : Problem) :=
    contains_findings_iff separated indexed sound loaded visited ha problem
  have annotated : ∀ id ∈ (context.agenda scope).records.map (·.id),
      ledger.Annotated id ((context.findingsOf scope ledger visits).problemsOf id) := by
    intro id hid
    obtain ⟨a, ha, rfl⟩ := List.mem_map.1 hid
    apply atRest.annotated a (filed.origin ha)
    intro problem
    rw [← found (filed.origin ha), Findings.contains, OrderedSet.contains_iff]
  have reconciled := Ledger.reconcile_annotated tagged annotated (removedBy visits)
  refine ⟨_, scan_of visited reconciled, ?_, fun a ha problem => ?_⟩
  · have inserted : visits.flatMap (·.effect.inserted) = [] :=
      List.flatMap_eq_nil_iff.2 fun visit hv => congrArg RepairEffect.inserted (nothing visit hv)
    have deleted : visits.flatMap (·.effect.deleted) = [] :=
      List.flatMap_eq_nil_iff.2 fun visit hv => congrArg RepairEffect.deleted (nothing visit hv)
    simp only [Report.changesNothing, Report.ofVisits, inserted, deleted]
    rfl
  · rw [lists_ofVisits, contains_agenda_iff sound loaded fun b hb same => sound.eq_of_id hb ha same]
    exact and_congr_right fun scanned => found scanned problem

theorem faults_congr {before after : Ledger} {r : Absence} {name : CategoryName}
    (same : context.verdict scope r name after = context.verdict scope r name before) {id : AbsenceId}
    {problem : Problem} : (∃ chain, context.chainAround scope r name after = .ok chain ∧
        chain.faults id problem) ↔
      ∃ chain, context.chainAround scope r name before = .ok chain ∧ chain.faults id problem := by
  have carry {l l' : Ledger} (same : context.verdict scope r name l = context.verdict scope r name l') :
      (∃ chain, context.chainAround scope r name l = .ok chain ∧ chain.faults id problem) →
        ∃ chain, context.chainAround scope r name l' = .ok chain ∧ chain.faults id problem := by
    rintro ⟨chain, built, faults⟩
    have verdict := verdict_of_chain built
    rw [same] at verdict
    obtain ⟨chain', built', missing, findings⟩ := chain_of_verdict verdict
    refine ⟨chain', built', ?_⟩
    unfold Chain.faults
    rwa [missing, findings]
  exact ⟨carry same, carry same.symm⟩

/-- A record that stays is found with what it was found with before the scan. -/
theorem Leaves.foundWith_iff {ledger after : Ledger} {report : Report}
    (leaves : context.Leaves scope ledger after report) {r : Absence} (hr : r ∈ ledger.records)
    (stays : r ∈ after.records) (mine : r.person = scope.person) {problem : Problem} :
    context.FoundWith scope after r problem ↔ context.FoundWith scope ledger r problem := by
  unfold FoundWith
  rw [leaves.stay r hr stays mine]
  apply or_congr_right
  apply and_congr_right
  intro _
  apply exists_congr
  intro c
  exact and_congr_right fun _ => and_congr_right fun _ => faults_congr (leaves.verdict r c.name)

section Newcomers

variable (separated : context.Separated scope)
  (own : ∀ code, ∀ c ∈ context.rules.categoriesFor code, code ∈ c.codes)

include separated own

/-- A replacing code is filed under the category it replaces in alone. -/
theorem category_eq_of_replaces {code : Code} {c c' : Category} (hc : c ∈ context.rules.all)
    (replaces : c.replaces code = true) (hc' : c' ∈ context.rules.categoriesFor code) : c' = c := by
  have known := RuleTree.all_of_mem_categoriesFor hc'
  obtain ⟨taken, completes⟩ := separated.spared c hc code replaces c' known
  rcases Category.mem_codes.1 (own code c' hc') with h | h | h
  · rw [taken] at h
    cases h
  · rw [completes] at h
    cases h
  · exact separated.owned c' known c hc code h replaces

/-- A newcomer is found with nothing. -/
theorem Newcomer.not_foundWith (indexed : context.rules.Indexed) {ledger : Ledger}
    (sound : ledger.Sound) {a : Absence} (ha : a ∈ ledger.records)
    (newcomer : context.Newcomer scope ledger a) (problem : Problem) :
    ¬ context.FoundWith scope ledger a problem := by
  obtain ⟨-, problems, c, hc, replaces, -, laid, here, nonempty⟩ := newcomer
  rintro (byItself | ⟨-, c', hc', -, chain, built, faults⟩)
  · rw [problems] at byItself
    exact absurd byItself List.not_mem_nil
  · obtain rfl := category_eq_of_replaces separated own hc replaces hc'
    obtain ⟨laid', here', filled⟩ := chainAround_ok built
    obtain rfl := Except.ok.inj (here.symm.trans here')
    rcases faults with ⟨-, missing⟩ | flag
    · rw [(Chain.fill_keeps filled).2.1] at missing
      exact nonempty (Chain.layOut_childMissing here missing)
    · obtain ⟨-, b, hb, same, -, p, hp, takes⟩ := Chain.fill_flags here filled flag
      obtain rfl := sound.eq_of_id (ScanScope.mem_gathered.1 hb).1 ha same
      have known := Chain.category_mem indexed.keyed separated.uniform here hp
      rw [Period.takes, (separated.spared c' hc b.code replaces p.category known).1, Bool.and_false] at takes
      cases takes

end Newcomers

/-- A scan of all records of a person leaves a ledger behind in which nothing is left to do for a scan of
all records that are there then. -/
theorem Leaves.atRest (separated : context.Separated scope) (indexed : context.rules.Indexed)
    (own : ∀ code, ∀ c ∈ context.rules.categoriesFor code, code ∈ c.codes) {ledger after : Ledger}
    {report : Report} (leaves : context.Leaves scope ledger after report)
    (whole : ∀ a, a ∈ scope.records ↔ a ∈ ledger.records ∧ a.person = scope.person ∧ scope.start ≤ a.date)
    {absences : List Absence} (present : ∀ a ∈ absences, a ∈ after.records) :
    context.AtRest { scope with absences := absences } after ∧
      ∀ a ∈ after.records, a.person = scope.person → scope.start ≤ a.date → ∀ problem,
        context.FoundWith scope after a problem ↔ report.lists a.id problem = true := by
  have sound := leaves.later.sound
  have found : ∀ a ∈ after.records, a.person = scope.person → scope.start ≤ a.date → ∀ problem,
      context.FoundWith scope after a problem ↔ report.lists a.id problem = true := by
    intro a ha mine from' problem
    by_cases old : a ∈ ledger.records
    · rw [leaves.lists a ((whole a).2 ⟨old, mine, from'⟩) problem]
      exact leaves.foundWith_iff old ha mine
    · have newcomer := leaves.come a ha old
      refine iff_of_false (newcomer.not_foundWith separated own indexed sound ha problem) ?_
      rw [Report.lists, leaves.unlisted a ha fun h => old ((whole a).1 h).1, OrderedSet.contains_iff]
      exact OrderedSet.mem_empty
  have scanned {a : Absence} (ha : a ∈ ScanScope.records { scope with absences := absences }) :
      a ∈ after.records ∧ a.person = scope.person ∧ scope.start ≤ a.date := by
    obtain ⟨mem, both⟩ := List.mem_filter.1 ha
    obtain ⟨mine, from'⟩ := (Bool.and_eq_true _ _).mp both
    exact ⟨present a mem, of_decide_eq_true mine, of_decide_eq_true from'⟩
  refine ⟨⟨fun a ha covered c hc included => ?_, fun a ha wanted exactly => ?_⟩, found⟩
  · obtain ⟨mem, mine, from'⟩ := scanned ha
    by_cases old : a ∈ ledger.records
    · exact leaves.quiet a ((whole a).2 ⟨old, mine, from'⟩) covered c hc included
    · obtain ⟨-, -, c', hc', replaces, quiet, -⟩ := leaves.come a mem old
      obtain rfl := category_eq_of_replaces separated own hc' replaces hc
      exact quiet
  · obtain ⟨mem, mine, from'⟩ := scanned ha
    have same : report.problemsOf a.id = wanted := by
      apply OrderedSet.ext
      intro problem
      rw [exactly problem, ← OrderedSet.contains_iff]
      exact (found a mem mine from' problem).symm
    rw [← same]
    apply leaves.annotated a mem
    by_cases old : a ∈ ledger.records
    · exact .inl ((whole a).2 ⟨old, mine, from'⟩)
    · exact .inr old

/-- A scan is idempotent in separated configurations. Run again for the same person and date over the
ledger that it has left behind, it succeeds, writes nothing, leaves the ledger exactly as it is, and lists
the same problems with every record that is still there. -/
theorem scan_idempotent {categories : List Category} {codes : List CodeEntry}
    (tree : context.rules = .ofLists categories codes) (distinct : (categories.map (·.name)).Nodup)
    {document : LedgerDocument} {directory : Directory} {person : PersonId} {start : Date}
    (separated : context.Separated (.ofLedger (.ofDocument document) directory person start))
    (uncounted : context.Uncounted (.ofDocument document))
    (attached : ∀ t ∈ document.troubles, ∃ a ∈ document.absences, a.id = t.absence)
    {report : Report} {after : Ledger}
    (ok : context.scan (.ofLedger (.ofDocument document) directory person start) (.ofDocument document) =
      .ok report after) :
    ∃ report', context.scan (.ofLedger after directory person start) after = .ok report' after ∧
      report'.changesNothing = true ∧
      ∀ a ∈ after.records, ∀ problem, report'.lists a.id problem = report.lists a.id problem := by
  have indexed : context.rules.Indexed := tree ▸ RuleTree.indexed_ofLists categories codes
  have own : ∀ code, ∀ c ∈ context.rules.categoriesFor code, code ∈ c.codes := by
    intro code c hc
    rw [tree] at hc
    exact (RuleTree.codes_of_mem_categoriesFor distinct hc).2.1
  have leaves := leaves_of_scan separated indexed (Ledger.sound_ofDocument document)
    (Ledger.tagged_ofDocument document) (Ledger.attached_ofDocument attached) uncounted
    (fun a ha => (ScanScope.mem_records_ofLedger.1 ha).1) ok
  have again : context.Separated (.ofLedger after directory person start) :=
    ⟨⟨separated.uniform, separated.disjoint, separated.together⟩, separated.owned, separated.spared⟩
  have present : ∀ a ∈ after.absencesIn person start .maximum, a ∈ after.records :=
    fun a ha => (Ledger.mem_absencesIn.1 ha).1
  obtain ⟨atRest, found⟩ :=
    leaves.atRest separated indexed own (fun a => ScanScope.mem_records_ofLedger) present
  obtain ⟨report', scanned, nothing, lists⟩ := AtRest.scan again indexed atRest leaves.later.sound
    leaves.tagged fun a ha => (ScanScope.mem_records_ofLedger.1 ha).1
  refine ⟨report', scanned, nothing, fun a ha problem => ?_⟩
  rw [Bool.eq_iff_iff, lists a ha problem, ScanScope.mem_records_ofLedger, and_iff_right ha]
  by_cases scanned : a.person = person ∧ start ≤ a.date
  · rw [and_iff_right scanned]
    exact found a ha scanned.1 scanned.2 problem
  · refine iff_of_false (fun h => scanned h.1) ?_
    rw [Report.lists, leaves.unlisted a ha fun h => scanned (ScanScope.mem_records_ofLedger.1 h).2,
      OrderedSet.contains_iff]
    exact OrderedSet.mem_empty

def sample : ScanContext :=
  ⟨Chain.sampleRules, .unknown, .standard⟩

/-- Two records of overtime on one day, which are not annotated as such, and the wrong record for them. -/
def sampleDocument : LedgerDocument where
  absences := [⟨⟨1, "09M", .sample 2024 4 1, .specifiedMinutes, some 70, none⟩, 1⟩,
    ⟨⟨1, "09M", .sample 2024 4 1, .specifiedMinutes, some 60, none⟩, 2⟩,
    ⟨⟨1, "09H1", .sample 2024 4 1, .nothing, none, none⟩, 3⟩]
  troubles := [⟨4, 1, .limitExceeded⟩]
  days := []
  workingMinutes := ∅
  persons := .ofList [(1, ⟨[⟨.sample 2020 1 1, none⟩], [], []⟩)]

def sampleScope : ScanScope :=
  .ofLedger (.ofDocument sampleDocument) sampleDocument.persons 1 .minimum

theorem sample_separated : sample.Separated sampleScope := by
  have all : sample.rules.all = [Chain.sampleHourly] := by cbv
  have contracts : sampleScope.profile.contracts = [⟨.sample 2020 1 1, none⟩] := by cbv
  refine ⟨⟨⟨?_, ?_, ?_⟩, ?_, ?_⟩, ?_, ?_⟩
  · intro a ha b hb name _ _
    rw [all, List.mem_singleton] at ha hb
    rw [ha, hb]
  · intro c hc _
    rw [all, List.mem_singleton] at hc
    rw [hc]
    rfl
  · intro a ha b hb _
    rw [all, List.mem_singleton] at ha hb
    rw [ha, hb]
  · intro a ha b hb d _ _
    rw [contracts, List.mem_singleton] at ha hb
    rw [ha, hb]
  · intro a ha b hb _
    rw [all, List.mem_singleton] at ha hb
    rw [ha, hb]
  · intro c hc c' hc' code _ _
    rw [all, List.mem_singleton] at hc hc'
    rw [hc, hc']
  · intro c hc code replaces c' hc'
    rw [all, List.mem_singleton] at hc hc'
    subst hc hc'
    have codes : "09H1" = code ∨ "09H2" = code := by
      simpa [Chain.sampleHourly, Category.replaces, Completion.isReplacing] using replaces
    rcases codes with rfl | rfl
    · exact ⟨by cbv, by cbv⟩
    · exact ⟨by cbv, by cbv⟩

/-- The scan of the sample deletes the wrong record, writes the right one and changes annotations. -/
theorem sample_repairs : ∃ report after,
    sample.scan sampleScope (.ofDocument sampleDocument) = .ok report after ∧
      report.deleted = [3] ∧ report.inserted.length = 1 ∧ report.troubles = ⟨2, 1⟩ := by
  have run : sample.scansTo sampleScope (.ofDocument sampleDocument) (fun report _ =>
      decide (report.deleted = [3]) && decide (report.inserted.length = 1) &&
        decide (report.troubles = ⟨2, 1⟩)) = true := by cbv
  obtain ⟨report, after, scanned, passes⟩ := scansTo_iff.1 run
  simp only [Bool.and_eq_true, decide_eq_true_eq] at passes
  exact ⟨report, after, scanned, passes.1.1, passes.1.2, passes.2⟩

/-- The scan of the sample repairs and annotates, and then there is nothing left to do. -/
theorem sample_scanned_twice : ∃ report after report',
    sample.scan sampleScope (.ofDocument sampleDocument) = .ok report after ∧
      report.deleted = [3] ∧ report.inserted.length = 1 ∧ report.troubles = ⟨2, 1⟩ ∧
      sample.scan (.ofLedger after sampleDocument.persons 1 .minimum) after = .ok report' after ∧
      report'.changesNothing = true := by
  obtain ⟨report, after, scanned, deleted, inserted, troubles⟩ := sample_repairs
  have tree : sample.rules = .ofLists [Chain.sampleHourly]
      [⟨"09H1", "", [.nothing]⟩, ⟨"09H2", "", [.nothing]⟩] := rfl
  have distinct : ([Chain.sampleHourly].map (·.name)).Nodup := List.nodup_singleton _
  have uncounted : sample.Uncounted (.ofDocument sampleDocument) := by
    have all : ((Ledger.ofDocument sampleDocument).records.all fun a => sample.rules.all.all fun c =>
        !c.replaces a.code || decide (a.kind = .nothing)) = true := by cbv
    intro a ha c hc replaces
    have here := List.all_eq_true.1 (List.all_eq_true.1 all a ha) c hc
    rw [replaces, Bool.not_true, Bool.false_or] at here
    exact of_decide_eq_true here
  have attached : ∀ t ∈ sampleDocument.troubles, ∃ a ∈ sampleDocument.absences, a.id = t.absence := by
    intro t ht
    rw [List.mem_singleton.1 ht]
    exact ⟨_, List.mem_cons_self, rfl⟩
  obtain ⟨report', again, nothing, -⟩ :=
    scan_idempotent tree distinct sample_separated uncounted attached scanned
  exact ⟨report, after, report', scanned, deleted, inserted, troubles, again, nothing⟩

end ScanContext

end Entitlement
