import Entitlement.Proofs.Chain.Leaving
import Entitlement.Proofs.Scan.Accounting

/-!
What it means for a scan to leave categories out. It never visits a record for one of them; but a chain that
is visited holds every category on its walk, left out or not. Only where excluded categories are joined to no
other is a scan the same as if the tree did not have them.
-/

namespace Entitlement

namespace ScanContext

variable {context : ScanContext} {scope : ScanScope}

def pruned (context : ScanContext) : ScanContext :=
  { context with rules := context.rules.without context.settings.excludes }

def Admits (context : ScanContext) (name : CategoryName) : Prop :=
  ∀ c, context.rules.category? name = some c → context.settings.excludes c = false

/-- The names that are pending for the records of a scan are those of categories that are not excluded. -/
theorem admits_agenda (keyed : context.rules.Keyed) {a : Absence} (ha : a ∈ (context.agenda scope).rest)
    {name : CategoryName} (pending : name ∈ (context.agenda scope).pendingFor a.id) :
    context.Admits name := by
  have filed := filed_agenda context scope
  rw [filed.pending (filed.rest ▸ ha), Agenda.mem_categoriesOf] at pending
  obtain ⟨c, hc, kept, rfl⟩ := pending
  intro other found
  obtain ⟨n, -, known⟩ := RuleTree.mem_categoriesFor.1 hc
  obtain rfl := keyed n c known
  obtain rfl := Option.some.inj (known.symm.trans found)
  exact kept

/-- Every balance of a report is that of a category on the walk of one that a covered record of the scan is to be
checked against. -/
theorem walk_of_balance {ledger after : Ledger} {report : Report}
    (ok : context.scan scope ledger = .ok report after) {balance : Balance}
    (hb : balance ∈ report.balances) : ∃ r ∈ scope.records, scope.isCovered r = true ∧
      ∃ c ∈ context.rules.categoriesFor r.code, context.settings.excludes c = false ∧
        ∃ category, context.OnWalk c.name category ∧ category.name = balance.category := by
  obtain ⟨visits, between, troubles, visited, -, rfl⟩ := scan_ok ok
  obtain ⟨key, found⟩ := OrderedMap.mem_values.1 hb
  obtain ⟨same, hsame, entry⟩ := List.mem_map.1 (OrderedMap.mem_of_get?_ofList found)
  obtain ⟨-, rfl⟩ := Prod.mk.inj entry
  obtain ⟨chain, hchain, here⟩ := List.mem_flatMap.1 hsame
  obtain ⟨p, hp, rfl⟩ := List.mem_map.1 here
  obtain ⟨visit, hv, made⟩ := List.mem_filterMap.1 hchain
  have covers := visitAll_covers (agenda_distinct context scope) visited
  obtain ⟨mem, pending, covered⟩ := covers.pending hv
  obtain ⟨before, later, -, -, -, step, -⟩ := covers.run.split hv
  have filed := filed_agenda context scope
  rw [filed.pending (filed.rest ▸ mem), Agenda.mem_categoriesOf] at pending
  obtain ⟨c, hc, kept, named⟩ := pending
  refine ⟨visit.record, filed.origin (filed.rest ▸ mem), covered, c, hc, kept, p.category, ?_, rfl⟩
  obtain ⟨record, name, result⟩ := visit
  cases step with
  | aborted _ => cases made
  | childMissing _ _ => cases made
  | noPeriods _ _ _ => cases made
  | repaired built _ _ _ _ =>
    cases made
    subst named
    exact (place_of_chainAround built hp).1

section Severs

variable (keyed : context.rules.Keyed) (severs : context.rules.Severs context.settings.excludes)

include keyed severs

theorem chainAround_pruned {record : Absence} {name : CategoryName} (admits : context.Admits name)
    (ledger : Ledger) : context.pruned.chainAround scope record name ledger =
      context.chainAround scope record name ledger := by
  have admitted : ∀ c, context.rules.category? (scope.pivot name record.date).category = some c →
      context.settings.excludes c = false := admits
  obtain ⟨same, stay⟩ := Chain.layOut_without keyed severs admitted
  rw [chainAround_eq, chainAround_eq]
  show (Chain.layOut (context.rules.without context.settings.excludes) _ >>= _) = _
  rw [same]
  cases laid : Chain.layOut context.rules (scope.pivot name record.date) with
  | error error => rfl
  | ok chain => exact Chain.fill_without keyed severs (stay chain laid)

theorem visit_pruned {record : Absence} {name : CategoryName} (admits : context.Admits name) :
    context.pruned.visit scope record name = context.visit scope record name := by
  funext ledger
  have repair (chain : Chain) : chain.repair context.pruned.rules = chain.repair context.rules :=
    Chain.repair_without context.settings.excludes chain
  unfold visit
  simp only [chainAround_pruned keyed severs admits, repair]

theorem visitAll_pruned {agenda : Agenda}
    (admits : ∀ a ∈ agenda.rest, ∀ name ∈ agenda.pendingFor a.id, context.Admits name) :
    context.pruned.visitAll scope agenda = context.visitAll scope agenda := by
  induction agenda using visitAll.induct scope with
  | case1 agenda next front => rw [visitAll_none front, visitAll_none front]
  | case2 agenda record name next front covered ih =>
    obtain ⟨rfl, inside, pending⟩ := Agenda.nextPair_some front
    have rest (visit : Visit) := ih visit fun a ha n wanted => by
      rw [Agenda.rest_strikePairs] at ha
      have wanted := (Agenda.mem_strike.1 (Agenda.mem_strikePairs.1 wanted).1).1
      exact admits a (Agenda.mem_rest_of_advance ha) n wanted
    rw [visitAll_some front, visitAll_some front, if_pos covered, if_pos covered,
      visit_pruned keyed severs (admits record inside name pending)]
    simp only [rest]
  | case3 agenda record name next front uncovered ih =>
    obtain ⟨rfl, -, -⟩ := Agenda.nextPair_some front
    rw [visitAll_some front, visitAll_some front, if_neg uncovered, if_neg uncovered]
    apply ih
    intro a ha n wanted
    exact admits a (Agenda.mem_rest_of_advance ha) n (Agenda.mem_strikeAll.1 wanted).1

omit keyed severs in
/-- The agenda never holds an excluded category, so it is the same without them. -/
theorem agenda_pruned (context : ScanContext) (scope : ScanScope) :
    context.pruned.agenda scope = context.agenda scope := by
  have categories (record : Absence) : Agenda.categoriesOf context.pruned.rules context.settings record =
      Agenda.categoriesOf context.rules context.settings record := by
    have left : context.pruned.rules.categoriesFor record.code = _ :=
      RuleTree.categoriesFor_without context.rules context.settings.excludes record.code
    simp only [Agenda.categoriesOf, left, List.filter_filter, Bool.and_self]
  have push : Agenda.push context.pruned.rules context.settings =
      Agenda.push context.rules context.settings := by
    funext agenda record
    simp only [Agenda.push, categories]
  show Agenda.ofRecords context.pruned.rules context.settings scope.records = _
  rw [Agenda.ofRecords, push]
  rfl

/-- Where excluded categories are joined to no other, a scan is the one without them. -/
theorem scan_pruned (scope : ScanScope) : context.pruned.scan scope = context.scan scope := by
  have agenda : Agenda.ofRecords context.pruned.rules context.pruned.settings scope.records =
      Agenda.ofRecords context.rules context.settings scope.records := agenda_pruned context scope
  have visits : context.pruned.visitAll scope (context.agenda scope) =
      context.visitAll scope (context.agenda scope) :=
    visitAll_pruned keyed severs fun a ha name pending => admits_agenda keyed ha pending
  funext ledger
  unfold scan
  simp only [agenda, visits]

end Severs

/-- How far a scan leaves excluded categories out. Every balance it reports is that of a category on the walk
of one that is not excluded. If the excluded categories are joined to no other, the scan is the same as with a
tree that lacks them: it reports no balance of theirs, and deletes and writes only what automatic categories that
are not excluded replace with. -/
structure LeavesOut (context : ScanContext) (scope : ScanScope) (ledger : Ledger) : Prop where
  walked {report : Report} {after : Ledger} {balance : Balance} :
    context.scan scope ledger = .ok report after → balance ∈ report.balances →
      ∃ r ∈ scope.records, scope.isCovered r = true ∧ ∃ c ∈ context.rules.categoriesFor r.code,
        context.settings.excludes c = false ∧
          ∃ category, context.OnWalk c.name category ∧ category.name = balance.category
  pruned : context.rules.Severs context.settings.excludes →
    context.scan scope ledger = context.pruned.scan scope ledger
  spared {report : Report} {after : Ledger} : context.rules.Severs context.settings.excludes →
    context.scan scope ledger = .ok report after →
      (∀ balance ∈ report.balances, ∀ c ∈ context.rules.all, c.name = balance.category →
        context.settings.excludes c = false) ∧
      (∀ a, (a ∈ ledger.records ∧ a.id ∈ report.deleted) ∨ a ∈ report.inserted →
        ∃ c ∈ context.rules.all, context.settings.excludes c = false ∧ c.automatic = true ∧
          c.replaces a.code = true)

theorem mem_all_pruned {c : Category} :
    c ∈ context.pruned.rules.all ↔ c ∈ context.rules.all ∧ context.settings.excludes c = false := by
  show c ∈ (context.rules.without context.settings.excludes).all ↔ _
  rw [RuleTree.all_without, List.mem_filter, Bool.not_eq_true']

/-- A scan leaves excluded categories out as far as they are joined to no other. -/
theorem excluded_left_out (keyed : context.rules.Keyed) (scope : ScanScope) {ledger : Ledger}
    (sound : ledger.Sound) : context.LeavesOut scope ledger where
  walked ok hb := walk_of_balance ok hb
  pruned severs := congrFun (scan_pruned keyed severs scope).symm ledger
  spared {report after} severs ok := by
    rw [← scan_pruned keyed severs scope] at ok
    constructor
    · intro balance hb c hc named
      obtain ⟨r, -, -, start, -, -, category, walk, same⟩ := walk_of_balance ok hb
      obtain ⟨known, kept⟩ := mem_all_pruned.1 walk.known
      rw [keyed.eq_of_name hc known (named.trans same.symm)]
      exact kept
    · obtain ⟨visits, between, troubles, visited, -, rfl⟩ := scan_ok ok
      have run := (visitAll_covers (agenda_distinct context.pruned scope) visited).run
      obtain ⟨books, -⟩ := run.books sound
      obtain ⟨writes, -⟩ := run.writes sound
      have replaced {a : Absence} (h : context.pruned.Touchable scope a) : ∃ c ∈ context.rules.all,
          context.settings.excludes c = false ∧ c.automatic = true ∧ c.replaces a.code = true := by
        obtain ⟨c, hc, automatic, replaces⟩ := h.replaces
        obtain ⟨known, kept⟩ := mem_all_pruned.1 hc
        exact ⟨c, known, kept, automatic, replaces⟩
      rintro a (⟨ha, gone⟩ | new)
      · obtain ⟨b, old | late, same, touchable⟩ := books.deletes gone
        · exact sound.eq_of_id old ha same ▸ replaced touchable
        · have below := sound.below (sound.mem_records_iff.1 ha)
          exact absurd (same ▸ (writes.inserts late).1) (Nat.not_le.2 below)
      · exact replaced (books.inserts new).1

def sampleLeave (next : Option CategoryName) : Category :=
  ⟨"LEAVE", "", .programmed, .year, some ⟨.units, .ofList ["X"], 500⟩, none, next, false, false⟩

def sampleRest : Category :=
  ⟨"REST", "", .programmed, .year, none, some ⟨.minutes, .ofList ["09M"], [⟨"09H1", 60⟩]⟩, none, true, false⟩

def leaveOnly (next : Option CategoryName) : ScanContext :=
  ⟨.ofLists [sampleLeave next, sampleRest] [⟨"09H1", "", [.nothing]⟩], .unknown, ⟨∅, .ofList ["REST"]⟩⟩

def leaveDocument : LedgerDocument :=
  { sampleDocument with
    absences := [⟨⟨1, "X", .sample 2024 3 5, .allDay, none, none⟩, 1⟩,
      ⟨⟨1, "09M", .sample 2024 3 6, .specifiedMinutes, some 60, none⟩, 2⟩]
    troubles := [] }

def leaveScope : ScanScope :=
  .ofLedger (.ofDocument leaveDocument) leaveDocument.persons 1 .minimum

def leaveScanned (next : Option CategoryName) : Option (List CategoryName × List Code) :=
  match (leaveOnly next).scan leaveScope (.ofDocument leaveDocument) with
  | .ok report _ => some (report.balances.map (·.category), report.inserted.map (·.code))
  | _ => none

theorem leaveScanned_ok {next : Option CategoryName} {names : List CategoryName} {codes : List Code}
    (run : leaveScanned next = some (names, codes)) : ∃ report after,
      (leaveOnly next).scan leaveScope (.ofDocument leaveDocument) = .ok report after ∧
        report.balances.map (·.category) = names ∧ report.inserted.map (·.code) = codes := by
  unfold leaveScanned at run
  split at run
  · next report after scanned =>
    cases run
    exact ⟨report, after, scanned, rfl, rfl⟩
  · cases run

/-- A chain of categories one of which is left out: the scan reports the balance of that category all the same,
and writes a record that no other category replaces with. -/
theorem rest_not_left_out : (leaveOnly (some "REST")).settings.excludes sampleRest = true ∧
    sampleRest ∈ (leaveOnly (some "REST")).rules.all ∧ ∃ report after,
      (leaveOnly (some "REST")).scan leaveScope (.ofDocument leaveDocument) = .ok report after ∧
        (∃ balance ∈ report.balances, balance.category = sampleRest.name) ∧
        ∃ a ∈ report.inserted, ∀ c ∈ (leaveOnly (some "REST")).rules.all, c.replaces a.code = true →
          (leaveOnly (some "REST")).settings.excludes c = true := by
  have all : (leaveOnly (some "REST")).rules.all = [sampleLeave (some "REST"), sampleRest] := by cbv
  have run : leaveScanned (some "REST") = some (["LEAVE", "REST"], ["09H1"]) := by cbv
  obtain ⟨report, after, scanned, names, codes⟩ := leaveScanned_ok run
  have shown : "REST" ∈ report.balances.map (·.category) := names ▸ by decide
  have wrote : "09H1" ∈ report.inserted.map (·.code) := codes ▸ by decide
  obtain ⟨balance, hb, named⟩ := List.mem_map.1 shown
  obtain ⟨a, ha, coded⟩ := List.mem_map.1 wrote
  have excluded : (leaveOnly (some "REST")).settings.excludes sampleRest = true := by cbv
  refine ⟨excluded, ?_, report, after, scanned, ⟨balance, hb, named⟩, a, ha, fun c hc replaces => ?_⟩
  · rw [all]
    exact List.mem_cons_of_mem _ List.mem_cons_self
  · rw [all, List.mem_pair] at hc
    rcases hc with rfl | rfl
    · cases replaces
    · exact excluded

/-- Without a link between them the scan of leave is the one without rest. -/
theorem leave_scanned_alone : (leaveOnly none).rules.Severs (leaveOnly none).settings.excludes ∧
    ∃ report after, (leaveOnly none).scan leaveScope (.ofDocument leaveDocument) = .ok report after ∧
      report.balances.map (·.category) = ["LEAVE"] ∧ report.inserted.map (·.code) = [] ∧
      (leaveOnly none).LeavesOut leaveScope (.ofDocument leaveDocument) := by
  have all : (leaveOnly none).rules.all = [sampleLeave none, sampleRest] := by cbv
  have run : leaveScanned none = some (["LEAVE"], []) := by cbv
  obtain ⟨report, after, scanned, names, codes⟩ := leaveScanned_ok run
  refine ⟨⟨fun {a b} ha _ link => ?_, fun {a b} ha _ carries => ?_⟩, report, after, scanned, names, codes,
    excluded_left_out (RuleTree.keyed_ofLists _ _) leaveScope (Ledger.sound_ofDocument leaveDocument)⟩
  · rw [all, List.mem_pair] at ha
    rcases ha with rfl | rfl
    · cases link
    · cases link
  · rw [all, List.mem_pair] at ha
    rcases ha with rfl | rfl
    · cases carries
    · cases carries

end ScanContext

end Entitlement
