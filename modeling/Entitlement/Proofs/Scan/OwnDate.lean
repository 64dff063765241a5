import Entitlement.Ledger.Document
import Entitlement.Proofs.Replacing.Planning
import Entitlement.Proofs.Scan.Reports

/-!
The limit verdict of a record is that of its own date. When nothing is replaced automatically a scan
leaves the records alone, and under coherent rules it lists an exceeded limit exactly for the records
that exceed one in a chain of their own; each of the conditions is needed.
-/

namespace Entitlement

namespace ScanContext

variable {context : ScanContext} {scope : ScanScope}

/-- Without automatic categories there is nothing to repair. -/
theorem repair_of_manual (indexed : context.rules.Indexed) (uniform : context.rules.Uniform)
    (manual : ∀ c ∈ context.rules.all, c.automatic = false) {record : Absence} {name : CategoryName}
    {ledger : Ledger} {chain : Chain}
    (h : context.chainAround scope record name ledger = .ok chain) :
    chain.repair context.rules = .ok ⟨chain.person, [], []⟩ := by
  obtain ⟨laid, hlaid, filled⟩ := chainAround_ok h
  apply Chain.repair_of_kept
  intro s hs automatic
  obtain ⟨p, hp, place⟩ := Chain.mem_of_places (Chain.fill_keeps filled).2.2 hs
  have known := Chain.category_mem indexed.keyed uniform hlaid hp
  rw [← (Prod.mk.inj place).1, manual p.category known] at automatic
  cases automatic

theorem visited_of_manual (indexed : context.rules.Indexed) (uniform : context.rules.Uniform)
    (manual : ∀ c ∈ context.rules.all, c.automatic = false) {record : Absence} {name : CategoryName}
    {ledger after : Ledger} {result : VisitResult}
    (h : Visited context scope record name ledger result after) : after = ledger := by
  cases h with
  | aborted _ => rfl
  | childMissing _ _ => rfl
  | noPeriods _ _ _ => rfl
  | repaired built _ _ planned carried =>
    rw [repair_of_manual indexed uniform manual built] at planned
    cases planned
    rw [Ledger.carryOut_nothing] at carried
    cases carried
    rfl

/-- A record exceeds a limit in some chain built around its own date. -/
def exceeds (context : ScanContext) (scope : ScanScope) (ledger : Ledger) (record : Absence) : Bool :=
  (context.rules.categoriesFor record.code).any fun c => !context.settings.excludes c &&
    match Chain.build context.rules context.working (scope.pivot c.name record.date) ledger.records with
    | .ok chain => chain.findings.contains record.id .limitExceeded
    | .error _ => false

theorem exceeds_iff {ledger : Ledger} {record : Absence} :
    context.exceeds scope ledger record = true ↔ ∃ c ∈ context.rules.categoriesFor record.code,
      context.settings.excludes c = false ∧ ∃ chain,
        Chain.build context.rules context.working (scope.pivot c.name record.date) ledger.records =
            .ok chain ∧ chain.findings.contains record.id .limitExceeded = true := by
  simp only [exceeds, List.any_eq_true, Bool.and_eq_true, Bool.not_eq_true']
  refine exists_congr fun c => and_congr_right fun _ => and_congr_right fun _ => ?_
  cases Chain.build context.rules context.working (scope.pivot c.name record.date)
      ledger.records with
  | ok chain => exact ⟨fun h => ⟨chain, rfl, h⟩, fun ⟨_, same, h⟩ => by cases same; exact h⟩
  | error error => exact ⟨fun h => absurd h (by simp), fun ⟨_, same, _⟩ => absurd same (by simp)⟩

/-- Without automatic categories and under coherent rules, a scan lists an exceeded limit with a covered
record exactly if a chain around the date of the record says so, at a category that its code is filed
under and that is not left out. The chain is filled with the records in its reach; these are all that
count, unless a record of the person precedes every contract. -/
theorem lists_limitExceeded_iff {categories : List Category} {codes : List CodeEntry}
    (tree : context.rules = .ofLists categories codes) (coherent : context.Coherent scope)
    (manual : ∀ c ∈ context.rules.all, c.automatic = false) {ledger after : Ledger}
    (sound : ledger.Sound) (loaded : ∀ a ∈ scope.absences, a ∈ ledger.records) {report : Report}
    (ok : context.scan scope ledger = .ok report after) {r : Absence} (queued : r ∈ scope.records)
    (covered : scope.isCovered r = true) :
    (report.lists r.id .limitExceeded = true ↔ ∃ c ∈ context.rules.categoriesFor r.code,
      context.settings.excludes c = false ∧ ∃ chain,
        context.chainAround scope r c.name ledger = .ok chain ∧
          chain.findings.contains r.id .limitExceeded = true) ∧
      ((∀ a ∈ ledger.records, a.person = scope.person →
          ∃ contract ∈ scope.profile.contracts, contract.first ≤ a.date) →
        (report.lists r.id .limitExceeded = true ↔ context.exceeds scope ledger r = true)) := by
  have indexed : context.rules.Indexed := tree ▸ RuleTree.indexed_ofLists categories codes
  have loaded' : ∀ a ∈ scope.records, a ∈ ledger.records :=
    fun a ha => loaded a (List.mem_filter.1 ha).1
  obtain ⟨visits, between, troubles, visited, -, made⟩ := scan_ok ok
  have unchanged (first : List Visit) (between : Ledger)
      (run : Visits context scope ledger first between) : between = ledger :=
    run.preserves (P := fun l => l = ledger) (fun _ _ before result _ visited same =>
      (visited_of_manual indexed coherent.uniform manual visited).trans same) rfl
  have filed := filed_agenda context scope
  have listed := mem_agenda sound loaded' filed queued
  have own : report.lists r.id .limitExceeded = true ↔ ∃ c ∈ context.rules.categoriesFor r.code,
      context.settings.excludes c = false ∧ ∃ chain,
        context.chainAround scope r c.name ledger = .ok chain ∧
          chain.findings.contains r.id .limitExceeded = true := by
    rw [made, lists_ofVisits, and_iff_right (Agenda.contains_iff.2 ⟨r, listed, rfl⟩),
      contains_findings filed listed, or_iff_right limitExceeded_not_standalone,
      finds_iff_faults coherent indexed sound loaded' visited
        (fun first between run record name => by rw [unchanged first between run]) queued,
      and_iff_right covered]
    refine exists_congr fun c => and_congr_right fun _ => and_congr_right fun _ =>
      exists_congr fun chain => and_congr_right fun _ => or_iff_right fun absent => ?_
    cases absent.1
  refine ⟨own, fun begun => ?_⟩
  rw [own, exceeds_iff]
  simp only [chainAround_eq_build begun]

end ScanContext

/-- All records of one person, whatever their dates, to be scanned under some rules. -/
structure ScanSample where
  categories : List Category
  excluded : List CategoryName
  profile : Profile
  records : List Absence

namespace ScanSample

def context (sample : ScanSample) : ScanContext :=
  ⟨.ofLists sample.categories [], .unknown, ⟨∅, .ofList sample.excluded⟩⟩

def document (sample : ScanSample) : LedgerDocument :=
  ⟨sample.records, [], [], ∅, .ofList [(1, sample.profile)]⟩

def ledger (sample : ScanSample) : Ledger :=
  .ofDocument sample.document

def scope (sample : ScanSample) : ScanScope :=
  .ofLedger sample.ledger sample.document.persons 1 .minimum

/-- A scan without automatic categories succeeds, and lists an exceeded limit with a covered record that no
chain around the record's own date has found, or misses one. -/
def Deviates (sample : ScanSample) : Prop :=
  (∀ c ∈ sample.context.rules.all, c.automatic = false) ∧ ∃ report after,
    sample.context.scan sample.scope sample.ledger = .ok report after ∧
      ∃ r ∈ sample.scope.records, sample.scope.isCovered r = true ∧
        ¬ (report.lists r.id .limitExceeded = true ↔
          sample.context.exceeds sample.scope sample.ledger r = true)

def deviates (sample : ScanSample) : Bool :=
  (sample.context.rules.all.all fun c => !c.automatic) &&
    sample.context.scansTo sample.scope sample.ledger fun report _ =>
      sample.scope.records.any fun r => sample.scope.isCovered r &&
        report.lists r.id .limitExceeded != sample.context.exceeds sample.scope sample.ledger r

theorem of_deviates {sample : ScanSample} (h : sample.deviates = true) : sample.Deviates := by
  obtain ⟨manual, h⟩ := (Bool.and_eq_true _ _).mp h
  refine ⟨fun c hc => ?_, ?_⟩
  · have own := List.all_eq_true.1 manual c hc
    rwa [Bool.not_eq_true'] at own
  · obtain ⟨report, after, scanned, h⟩ := ScanContext.scansTo_iff.1 h
    obtain ⟨r, hr, differs⟩ := List.any_eq_true.1 h
    obtain ⟨covered, differs⟩ := (Bool.and_eq_true _ _).mp differs
    rw [bne_iff_ne, ne_eq, Bool.eq_iff_iff] at differs
    exact ⟨report, after, scanned, r, hr, covered, differs⟩

def days (name : CategoryName) (period : PeriodRule) (codes : List Code) (limit : Amount)
    (next : Option CategoryName) : Category :=
  ⟨name, "", .programmed, period, some ⟨.units, .ofList codes, limit⟩, none, next, false, true⟩

def day (id : AbsenceId) (code : Code) (year : Int) (month day : Nat) : Absence :=
  ⟨⟨1, code, .sample year month day, .allDay, none, none⟩, id⟩

def employed : Profile :=
  ⟨[⟨.sample 2020 1 1, none⟩], [], []⟩

def twoYearly : ScanSample where
  categories := [days "A" .year ["X"] 100 (some "B"), days "B" .year ["X"] 100 none]
  excluded := []
  profile := employed
  records := [day 1 "X" 2024 1 5, day 2 "X" 2024 2 5, day 3 "X" 2024 3 5]

theorem twoYearly_coherent : twoYearly.context.Coherent twoYearly.scope := by
  have all : twoYearly.context.rules.all =
      [days "A" .year ["X"] 100 (some "B"), days "B" .year ["X"] 100 none] := by cbv
  have contracts : twoYearly.scope.profile.contracts = [⟨.sample 2020 1 1, none⟩] := by cbv
  refine ⟨⟨?_, ?_, ?_⟩, ?_, ?_⟩
  · intro a ha b hb name nextA nextB
    rw [all, List.mem_cons, List.mem_singleton] at ha hb
    rcases ha with rfl | rfl <;> rcases hb with rfl | rfl
    · rfl
    · cases nextB
    · cases nextA
    · rfl
  · intro c hc unlimited
    rw [all, List.mem_cons, List.mem_singleton] at hc
    rcases hc with rfl | rfl
    · have limited : (days "A" .year ["X"] 100 (some "B")).isUnlimited = false := by cbv
      rw [limited] at unlimited
      cases unlimited
    · rfl
  · intro a ha b hb _
    rw [all, List.mem_cons, List.mem_singleton] at ha hb
    rcases ha with rfl | rfl <;> rcases hb with rfl | rfl <;> rfl
  · intro a ha b hb d _ _
    rw [contracts, List.mem_singleton] at ha hb
    rw [ha, hb]
  · intro a ha b hb _
    rw [all, List.mem_cons, List.mem_singleton] at ha hb
    rcases ha with rfl | rfl <;> rcases hb with rfl | rfl <;> cbv

/-- The third day exceeds both limits and the second does not, and the scan lists just that. -/
theorem third_day_listed : ∃ report after,
    twoYearly.context.scan twoYearly.scope twoYearly.ledger = .ok report after ∧
      report.lists 3 .limitExceeded = true ∧ report.lists 2 .limitExceeded = false := by
  have succeeds : twoYearly.context.scansTo twoYearly.scope twoYearly.ledger (fun _ _ => true) = true := by
    cbv
  have records : twoYearly.ledger.records =
      [day 1 "X" 2024 1 5, day 2 "X" 2024 2 5, day 3 "X" 2024 3 5] := by cbv
  have contracts : twoYearly.scope.profile.contracts = [⟨.sample 2020 1 1, none⟩] := by cbv
  have queue : twoYearly.scope.records = twoYearly.records := by cbv
  have begun : ∀ a ∈ twoYearly.ledger.records, a.person = twoYearly.scope.person →
      ∃ contract ∈ twoYearly.scope.profile.contracts, contract.first ≤ a.date := by
    intro a ha _
    rw [contracts]
    refine ⟨_, List.mem_singleton_self _, ?_⟩
    rw [records, List.mem_cons, List.mem_cons, List.mem_singleton] at ha
    rcases ha with rfl | rfl | rfl <;> exact of_decide_eq_true (by cbv)
  have manual : ∀ c ∈ twoYearly.context.rules.all, c.automatic = false := by
    have all : (twoYearly.context.rules.all.all fun c => !c.automatic) = true := by cbv
    intro c hc
    simpa using List.all_eq_true.1 all c hc
  have loaded : ∀ a ∈ twoYearly.scope.absences, a ∈ twoYearly.ledger.records :=
    fun a ha => (Ledger.mem_absencesIn.1 ha).1
  obtain ⟨report, after, scanned, -⟩ := ScanContext.scansTo_iff.1 succeeds
  have third := (ScanContext.lists_limitExceeded_iff rfl twoYearly_coherent manual
    (Ledger.sound_ofDocument _) loaded scanned (r := day 3 "X" 2024 3 5)
    (by rw [queue]; simp [twoYearly]) (by cbv)).2 begun
  have second := (ScanContext.lists_limitExceeded_iff rfl twoYearly_coherent manual
    (Ledger.sound_ofDocument _) loaded scanned (r := day 2 "X" 2024 2 5)
    (by rw [queue]; simp [twoYearly]) (by cbv)).2 begun
  refine ⟨report, after, scanned, third.2 (by cbv), Bool.eq_false_iff.2 fun listed => ?_⟩
  have within : twoYearly.context.exceeds twoYearly.scope twoYearly.ledger (day 2 "X" 2024 2 5) =
      false := by cbv
  exact Bool.eq_false_iff.1 within (second.1 listed)

/-- A year followed by a month: around the second record the month is another one. -/
def mixedPeriods : ScanSample where
  categories := [days "A" .year ["X"] 100 (some "B"), days "B" .month ["X"] 100 none]
  excluded := []
  profile := employed
  records := [day 1 "X" 2024 1 5, day 2 "X" 2024 3 5]

def sharedSuccessor : ScanSample where
  categories := [days "A" .year ["Y"] 100 (some "C"), days "B" .year ["X"] 100 (some "C"),
    days "C" .year ["X"] 0 none]
  excluded := []
  profile := employed
  records := [day 1 "X" 2024 1 5]

/-- A category behind an unlimited one: only its own chain reaches it. -/
def behindUnlimited : ScanSample where
  categories := [days "A" .year ["X"] 0 (some "U"), days "U" .year ["Y"] (.clamp (-1)) (some "N"),
    days "N" .year ["X", "Z"] 200 none]
  excluded := []
  profile := employed
  records := [day 1 "Z" 2024 1 5, day 2 "X" 2024 3 5]

def partlyExcluded : ScanSample where
  categories := [days "A" .year ["X"] 0 (some "B"), days "B" .year ["Y"] 100 none]
  excluded := ["A"]
  profile := employed
  records := [day 1 "Y" 2024 1 5, day 2 "X" 2024 3 5]

/-- A date in two contracts, the first of which the earlier record lies outside. -/
def overlappingContracts : ScanSample where
  categories := [days "A" .always ["X"] 100 none]
  excluded := []
  profile := ⟨[⟨.sample 2024 3 1, none⟩, ⟨.sample 2020 1 1, some (.sample 2024 6 30)⟩], [], []⟩
  records := [day 1 "X" 2024 1 5, day 2 "X" 2024 5 5]

/-- A record before the first contract, from which a replay of all records would begin. -/
def beforeContracts : ScanSample where
  categories := [days "K" (.previousYear "S" 12) ["X"] 0 (some "S"), days "S" .year ["X"] 100 none]
  excluded := []
  profile := ⟨[⟨.sample 2023 1 1, none⟩], [], [⟨"S", .sample 2023 6 1, 100, 0, none⟩]⟩
  records := [day 1 "X" 2022 3 5, day 2 "X" 2024 3 5, day 3 "X" 2024 3 6]

/-- None of the conditions can be left out: in each of these just one fails. -/
theorem verdicts_differ : mixedPeriods.Deviates ∧ sharedSuccessor.Deviates ∧ behindUnlimited.Deviates ∧
    partlyExcluded.Deviates ∧ overlappingContracts.Deviates ∧ beforeContracts.Deviates :=
  ⟨of_deviates (by cbv), of_deviates (by cbv), of_deviates (by cbv), of_deviates (by cbv),
    of_deviates (by cbv), of_deviates (by cbv)⟩

end ScanSample

end Entitlement
