import Entitlement.Proofs.Scan.Sites
import Entitlement.Proofs.Scan.Visits

/-!
What a scan holds against a record. Visits settle the pairs of other records, yet under coherent rules
nothing is lost: all visits together find exactly what the chains around the record itself hold
against it, whatever the order of the records.
-/

namespace Entitlement

namespace ScanContext

/-- Rules, contracts and settings under which every record of a chain would be the pivot of the same
chain: no date lies in two contracts, and linked categories are left out together. -/
structure Coherent (context : ScanContext) (scope : ScanScope) : Prop where
  uniform : context.rules.Uniform
  disjoint : scope.profile.Disjoint
  together : ∀ a ∈ context.rules.all, ∀ b ∈ context.rules.all, a.next = some b.name →
    context.settings.excludes a = context.settings.excludes b

def verdict (context : ScanContext) (scope : ScanScope) (record : Absence) (name : CategoryName)
    (ledger : Ledger) : Option (Bool × Findings) :=
  (context.chainAround scope record name ledger).toOption.map fun chain =>
    (chain.childIsMissing, chain.findings)

end ScanContext

/-- What a chain holds against the record it was built around. -/
def Chain.faults (chain : Chain) (id : AbsenceId) (problem : Problem) : Prop :=
  (problem = .noChildExist ∧ chain.childIsMissing = true) ∨ chain.findings.contains id problem = true

namespace Visit

def finds (visit : Visit) (id : AbsenceId) (problem : Problem) : Prop :=
  match visit.result with
  | .childMissing => id = visit.record.id ∧ problem = .noChildExist
  | .repaired chain _ => chain.findings.contains id problem = true
  | _ => False

theorem contains_report {visit : Visit} {findings : Findings} {id : AbsenceId} {problem : Problem} :
    (visit.report findings).contains id problem = true ↔
      findings.contains id problem = true ∨ visit.finds id problem := by
  unfold report finds
  cases visit.result with
  | childMissing => exact Findings.contains_addProblem
  | noPeriods => simp
  | aborted error => simp
  | repaired chain effect => exact Findings.contains_merge

theorem contains_reports {visits : List Visit} {findings : Findings} {id : AbsenceId}
    {problem : Problem} :
    (visits.foldl (fun findings visit => visit.report findings) findings).contains id problem = true ↔
      findings.contains id problem = true ∨ ∃ visit ∈ visits, visit.finds id problem := by
  induction visits generalizing findings with
  | nil => simp
  | cons visit rest ih =>
    rw [List.foldl_cons, ih, contains_report, List.exists_mem_cons_iff, or_assoc]

end Visit

namespace ScanContext

variable {context : ScanContext} {scope : ScanScope}

theorem verdict_of_chain {record : Absence} {name : CategoryName} {ledger : Ledger} {chain : Chain}
    (h : context.chainAround scope record name ledger = .ok chain) :
    context.verdict scope record name ledger = some (chain.childIsMissing, chain.findings) := by
  rw [verdict, h]
  rfl

theorem chain_of_verdict {record : Absence} {name : CategoryName} {ledger : Ledger} {missing : Bool}
    {findings : Findings}
    (h : context.verdict scope record name ledger = some (missing, findings)) :
    ∃ chain, context.chainAround scope record name ledger = .ok chain ∧
      chain.childIsMissing = missing ∧ chain.findings = findings := by
  unfold verdict at h
  cases built : context.chainAround scope record name ledger with
  | error error =>
    rw [built] at h
    cases h
  | ok chain =>
    rw [built] at h
    cases h
    exact ⟨chain, rfl, rfl, rfl⟩

/-- A chain that has a problem with a record has periods. -/
theorem periods_of_flag {record : Absence} {name : CategoryName} {ledger : Ledger} {chain : Chain}
    (h : context.chainAround scope record name ledger = .ok chain) {id : AbsenceId} {problem : Problem}
    (flag : chain.findings.contains id problem = true) :
    chain.periods ≠ [] ∧ chain.childIsMissing = false := by
  obtain ⟨laid, hlaid, filled⟩ := chainAround_ok h
  obtain ⟨-, a, -, -, -, p, hp, -⟩ := Chain.fill_flags hlaid filled flag
  obtain ⟨-, missing, places⟩ := Chain.fill_keeps filled
  constructor
  · intro none
    rw [none, List.map_nil, eq_comm, List.map_eq_nil_iff] at places
    exact absurd hp (places ▸ List.not_mem_nil)
  · rw [missing]
    apply Bool.eq_false_iff.2
    intro absent
    exact absurd hp (Chain.layOut_childMissing hlaid absent ▸ List.not_mem_nil)

/-- A visit finds what the chain around its record finds. -/
theorem finds_of_faults {visit : Visit} {ledger after : Ledger}
    (visited : Visited context scope visit.record visit.category ledger visit.result after)
    {chain : Chain} (verdict : context.verdict scope visit.record visit.category ledger =
      some (chain.childIsMissing, chain.findings)) {problem : Problem}
    (faults : chain.faults visit.record.id problem) : visit.finds visit.record.id problem := by
  obtain ⟨made, built, missing, findings⟩ := chain_of_verdict verdict
  have flagged (flag : chain.findings.contains visit.record.id problem = true) :=
    periods_of_flag built (findings ▸ flag)
  unfold Visit.finds
  generalize visit.result = result at visited
  cases visited with
  | aborted failed =>
    rw [built] at failed
    cases failed
  | childMissing built' absent =>
    rw [built] at built'
    cases built'
    rcases faults with ⟨problem, -⟩ | flag
    · exact ⟨rfl, problem⟩
    · rw [(flagged flag).2] at absent
      cases absent
  | noPeriods built' present none =>
    rw [built] at built'
    cases built'
    rcases faults with ⟨-, absent⟩ | flag
    · rw [← missing, present] at absent
      cases absent
    · exact absurd none (flagged flag).1
  | repaired built' present _ _ _ =>
    rw [built] at built'
    cases built'
    rcases faults with ⟨-, absent⟩ | flag
    · rw [← missing, present] at absent
      cases absent
    · show made.findings.contains visit.record.id problem = true
      rwa [findings]

theorem mem_settled {chain : Chain} {id : AbsenceId} {name : CategoryName} :
    (id, name) ∈ chain.participants.toList.flatMap (fun absence =>
        chain.categories.map fun c => (absence, c)) ↔
      id ∈ chain.participants ∧ name ∈ chain.categories := by
  simp only [List.mem_flatMap, List.mem_map, Prod.mk.injEq, OrderedSet.mem_def]
  constructor
  · rintro ⟨_, takesPart, _, listed, rfl, rfl⟩
    exact ⟨takesPart, listed⟩
  · rintro ⟨takesPart, listed⟩
    exact ⟨id, takesPart, name, listed, rfl, rfl⟩

/-- A visit that holds a problem against a record was made around a chain that has it. -/
theorem Visited.of_finds {visit : Visit} {ledger after : Ledger}
    (visited : Visited context scope visit.record visit.category ledger visit.result after)
    {id : AbsenceId} {problem : Problem} (finds : visit.finds id problem) :
    ∃ chain, context.chainAround scope visit.record visit.category ledger = .ok chain ∧
      ((id = visit.record.id ∧ problem = .noChildExist ∧ chain.childIsMissing = true) ∨
        chain.findings.contains id problem = true) := by
  unfold Visit.finds at finds
  generalize visit.result = result at finds visited
  cases visited with
  | aborted _ => exact absurd finds not_false
  | noPeriods _ _ _ => exact absurd finds not_false
  | childMissing built missing => exact ⟨_, built, .inl ⟨finds.1, finds.2, missing⟩⟩
  | repaired built _ _ _ _ => exact ⟨_, built, .inr finds⟩

/-- A visit that settles a pair was made around a chain that the record takes part in at that category, and
it holds against records what that chain does. -/
theorem Visited.of_settled {visit : Visit} {ledger after : Ledger}
    (visited : Visited context scope visit.record visit.category ledger visit.result after)
    {id : AbsenceId} {name : CategoryName} (settled : (id, name) ∈ visit.settled) :
    ∃ chain, context.chainAround scope visit.record visit.category ledger = .ok chain ∧
      chain.childIsMissing = false ∧ id ∈ chain.participants ∧ name ∈ chain.categories ∧
        ∀ other problem, chain.findings.contains other problem = true → visit.finds other problem := by
  unfold Visit.settled at settled
  unfold Visit.finds
  generalize visit.result = result at settled visited
  cases visited with
  | aborted _ => exact absurd settled List.not_mem_nil
  | childMissing _ _ => exact absurd settled List.not_mem_nil
  | noPeriods _ _ _ => exact absurd settled List.not_mem_nil
  | repaired built missing _ _ _ =>
    obtain ⟨takesPart, listed⟩ := mem_settled.1 settled
    exact ⟨_, built, missing, takesPart, listed, fun _ _ flag => flag⟩

section Coherent

variable (coherent : context.Coherent scope) (indexed : context.rules.Indexed)

include coherent indexed

/-- The verdict on a record in a period of a chain, at any category of it, is the chain's. -/
theorem verdict_moved {record : Absence} {name : CategoryName} {ledger : Ledger} {laid : Chain}
    (h : Chain.layOut context.rules (scope.pivot name record.date) = .ok laid) {p q : Period}
    (hp : p ∈ laid.periods) (hq : q ∈ laid.periods) {other : Absence} (inside : other.date ∈ p.range) :
    context.verdict scope other q.name ledger = context.verdict scope record name ledger := by
  unfold verdict
  rw [chainAround_moved indexed.keyed coherent.uniform coherent.disjoint h hp hq inside,
    Option.map_map]
  rfl

omit coherent indexed in
/-- A record that takes part in a chain lies in one of its periods, and each category of the chain is that
of a period. -/
theorem site_of_participant {record : Absence} {name : CategoryName} {ledger : Ledger} {chain : Chain}
    (h : context.chainAround scope record name ledger = .ok chain) {other : Absence}
    (sole : ∀ a ∈ ledger.records, a.id = other.id → a = other) (takesPart : other.id ∈ chain.participants)
    {n : CategoryName} (listed : n ∈ chain.categories) :
    ∃ laid, Chain.layOut context.rules (scope.pivot name record.date) = .ok laid ∧
      ∃ p ∈ laid.periods, other.date ∈ p.range ∧ ∃ q ∈ laid.periods, q.name = n := by
  obtain ⟨laid, hlaid, filled⟩ := chainAround_ok h
  obtain ⟨a, ha, same, -, p, hp, concerned⟩ := (Chain.mem_participants_fill hlaid filled).1 takesPart
  rw [sole a (ScanScope.mem_gathered.1 ha).1 same, Period.concerns_eq, Bool.and_eq_true] at concerned
  obtain ⟨s, hs, rfl⟩ := List.mem_map.1 listed
  obtain ⟨q, hq, place⟩ := Chain.mem_of_places (Chain.fill_keeps filled).2.2 hs
  exact ⟨laid, hlaid, p, hp, Chain.mem_range_of_covers concerned.1, q, hq,
    congrArg Category.name (Prod.mk.inj place).1⟩

/-- A record that takes part in a chain has the verdict of the chain at each of its categories. -/
theorem verdict_of_participant {record : Absence} {name : CategoryName} {ledger : Ledger}
    {chain : Chain} (h : context.chainAround scope record name ledger = .ok chain) {other : Absence}
    (sole : ∀ a ∈ ledger.records, a.id = other.id → a = other) (takesPart : other.id ∈ chain.participants)
    {n : CategoryName} (listed : n ∈ chain.categories) :
    context.verdict scope other n ledger = context.verdict scope record name ledger := by
  obtain ⟨laid, hlaid, p, hp, inside, q, hq, rfl⟩ := site_of_participant h sole takesPart listed
  exact verdict_moved coherent indexed hlaid hp hq inside

/-- A problem that a chain has with a record is one that the chain around the record has with it, at a
category its code is filed under and that is left out only if the chain's is. -/
theorem verdict_of_finding {record : Absence} {name : CategoryName} {ledger : Ledger}
    {chain : Chain} (h : context.chainAround scope record name ledger = .ok chain) {other : Absence}
    (sole : ∀ a ∈ ledger.records, a.id = other.id → a = other) {problem : Problem}
    (flag : chain.findings.contains other.id problem = true) : problem = .limitExceeded ∧
      ∃ c ∈ context.rules.categoriesFor other.code,
        (∀ start ∈ context.rules.all, start.name = name →
          context.settings.excludes c = context.settings.excludes start) ∧
        context.verdict scope other c.name ledger = context.verdict scope record name ledger := by
  obtain ⟨laid, hlaid, filled⟩ := chainAround_ok h
  obtain ⟨exceeded, a, ha, same, -, p, hp, takes⟩ := Chain.fill_flags hlaid filled flag
  rw [sole a (ScanScope.mem_gathered.1 ha).1 same] at takes
  obtain ⟨covers, taken⟩ := (Bool.and_eq_true _ _).mp takes
  obtain ⟨contract, first, along⟩ :=
    Chain.laidAlong indexed.keyed coherent.uniform hlaid (List.ne_nil_of_mem hp)
  obtain ⟨onPath, known, -⟩ := along.of_mem hp
  refine ⟨exceeded, p.category, indexed.files known (Category.mem_codes.2 (.inl taken)), ?_, ?_⟩
  · intro start hstart named
    obtain ⟨requested, inside, called⟩ := along.requested
    have mem := RuleTree.category?_mem (along.leads.known along.top _ inside)
    obtain rfl := indexed.keyed.eq_of_name hstart mem (named.trans called.symm)
    exact along.agree coherent.together onPath inside
  · exact verdict_moved coherent indexed hlaid hp hp (Chain.mem_range_of_covers covers)

/-- Only records under a contract are found with anything by a visit. -/
theorem covered_of_finds {source : List Absence} {agenda : Agenda} {ledger after : Ledger}
    {visits : List Visit} (filed : agenda.Filed context.rules context.settings source)
    (covers : Covers context scope agenda ledger visits after) (sound : ledger.Sound) {r : Absence}
    (hr : r ∈ agenda.records) (mine : r ∈ ledger.records) {visit : Visit} (hv : visit ∈ visits)
    {problem : Problem} (finds : visit.finds r.id problem) : scope.isCovered r = true := by
  obtain ⟨before, between, first, rest, earlier, visited, -⟩ := covers.run.split hv
  obtain ⟨inside, -, covered⟩ := covers.pending hv
  rw [filed.rest] at inside
  obtain ⟨chain, built, ⟨same, -⟩ | flag⟩ := visited.of_finds finds
  · rw [filed.distinct hr inside same]
    exact covered
  · obtain ⟨laid, hlaid, filled⟩ := chainAround_ok built
    obtain ⟨-, a, ha, same, -, p, hp, takes⟩ := Chain.fill_flags hlaid filled flag
    obtain rfl := (earlier.later sound).eq_of_id sound (ScanScope.mem_gathered.1 ha).1 mine same
    exact isCovered_of_laid indexed.keyed coherent.uniform rfl hlaid hp
      (Chain.mem_range_of_covers ((Bool.and_eq_true _ _).mp takes).1)

section Steady

variable {source : List Absence} {agenda : Agenda} {ledger after : Ledger} {visits : List Visit}
  (filed : agenda.Filed context.rules context.settings source)
  (covers : Covers context scope agenda ledger visits after) (sound : ledger.Sound)
  (loaded : ∀ a ∈ source, a ∈ ledger.records)
  (steady : ∀ first between, Visits context scope ledger first between → ∀ record name,
    context.verdict scope record name between = context.verdict scope record name ledger)
  {r : Absence} (hr : r ∈ agenda.records)

include filed covers sound loaded steady hr

/-- What a visit holds against a record is what some chain around the record holds against it. -/
theorem faults_of_finds {visit : Visit} (hv : visit ∈ visits) {problem : Problem}
    (finds : visit.finds r.id problem) : ∃ c ∈ context.rules.categoriesFor r.code,
      context.settings.excludes c = false ∧ ∃ chain,
        context.chainAround scope r c.name ledger = .ok chain ∧ chain.faults r.id problem := by
  obtain ⟨before, between, first, rest, earlier, visited, -⟩ := covers.run.split hv
  obtain ⟨inside, pending, -⟩ := covers.pending hv
  rw [filed.rest] at inside
  rw [filed.pending inside, Agenda.mem_categoriesOf] at pending
  obtain ⟨c, hc, included, named⟩ := pending
  obtain ⟨chain, built, ⟨same, rfl, missing⟩ | flag⟩ := visited.of_finds finds
  · obtain rfl := filed.distinct hr inside same
    have verdict := verdict_of_chain built
    rw [steady _ _ earlier] at verdict
    obtain ⟨chain', built', missing', -⟩ := chain_of_verdict verdict
    exact ⟨c, hc, included, chain', named ▸ built', .inl ⟨rfl, missing'.trans missing⟩⟩
  · have sole (a : Absence) (ha : a ∈ before.records) (same : a.id = r.id) : a = r :=
      (earlier.later sound).eq_of_id sound ha (loaded r (filed.origin hr)) same
    obtain ⟨-, own, hown, left, verdict⟩ := verdict_of_finding coherent indexed built sole flag
    rw [verdict_of_chain built, steady _ _ earlier] at verdict
    obtain ⟨chain', built', -, findings⟩ := chain_of_verdict verdict
    refine ⟨own, hown, ?_, chain', built', .inr (findings ▸ flag)⟩
    exact (left c (RuleTree.all_of_mem_categoriesFor hc) named).trans included

/-- What a chain around a covered record holds against it, some visit holds against it. -/
theorem finds_of_chainAround (covered : scope.isCovered r = true) {c : Category}
    (hc : c ∈ context.rules.categoriesFor r.code) (included : context.settings.excludes c = false)
    {chain : Chain} (built : context.chainAround scope r c.name ledger = .ok chain) {problem : Problem}
    (faults : chain.faults r.id problem) : ∃ visit ∈ visits, visit.finds r.id problem := by
  have verdict := verdict_of_chain built
  have wanted : c.name ∈ agenda.pendingFor r.id := by
    rw [filed.pending hr, Agenda.mem_categoriesOf]
    exact ⟨c, hc, included, rfl⟩
  obtain ⟨visit, hv, done⟩ := covers.covers (filed.rest ▸ hr) wanted covered
  refine ⟨visit, hv, ?_⟩
  obtain ⟨before, between, first, rest, earlier, visited, -⟩ := covers.run.split hv
  rw [← steady _ _ earlier] at verdict
  rcases done with ⟨rfl, named⟩ | settled
  · rw [← named] at verdict
    exact finds_of_faults visited verdict faults
  · obtain ⟨made, built, missing, takesPart, listed, holds⟩ := visited.of_settled settled
    have sole (a : Absence) (ha : a ∈ before.records) (same : a.id = r.id) : a = r :=
      (earlier.later sound).eq_of_id sound ha (loaded r (filed.origin hr)) same
    rw [verdict_of_participant coherent indexed built sole takesPart listed, verdict_of_chain built]
      at verdict
    obtain ⟨same, findings⟩ := Prod.mk.inj (Option.some.inj verdict)
    apply holds
    rcases faults with ⟨-, absent⟩ | flag
    · rw [← same, missing] at absent
      cases absent
    · rwa [findings]

/-- All visits of an agenda together find with a record exactly what the chains around it find, at the
categories it is checked against, if the visits leave the verdicts as they are; with a record that is not
under a contract they find nothing. -/
theorem finds_iff (problem : Problem) : (∃ visit ∈ visits, visit.finds r.id problem) ↔
    scope.isCovered r = true ∧ ∃ c ∈ context.rules.categoriesFor r.code,
      context.settings.excludes c = false ∧ ∃ chain,
        context.chainAround scope r c.name ledger = .ok chain ∧ chain.faults r.id problem := by
  constructor
  · rintro ⟨visit, hv, finds⟩
    exact ⟨covered_of_finds coherent indexed filed covers sound hr (loaded r (filed.origin hr)) hv finds,
      faults_of_finds coherent indexed filed covers sound loaded steady hr hv finds⟩
  · rintro ⟨covered, c, hc, included, chain, built, faults⟩
    exact finds_of_chainAround coherent indexed filed covers sound loaded steady hr covered hc included
      built faults

end Steady

end Coherent

end ScanContext

end Entitlement
