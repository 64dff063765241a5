import Entitlement.Proofs.Scan.Newcomers
import Entitlement.Proofs.Scan.Reconciling

/-!
What a scan of separated configurations leaves behind. Its report lists with each record what the record
was found with in the ledger before the scan, the annotations are those of the report, and no chain around
a scanned record has anything left to repair.
-/

namespace Entitlement

theorem ScanScope.mem_records_ofLedger {ledger : Ledger} {directory : Directory} {person : PersonId}
    {start : Date} {a : Absence} : a ∈ (ScanScope.ofLedger ledger directory person start).records ↔
      a ∈ ledger.records ∧ a.person = person ∧ start ≤ a.date := by
  unfold ofLedger records
  rw [List.mem_filter, Ledger.mem_absencesIn, Bool.and_eq_true]
  constructor
  · rintro ⟨⟨mem, mine, from', -⟩, -⟩
    exact ⟨mem, mine, from'⟩
  · rintro ⟨mem, mine, from'⟩
    exact ⟨⟨mem, mine, from', Date.le_maximum _⟩, decide_eq_true mine, decide_eq_true from'⟩

def Ledger.Attached (ledger : Ledger) : Prop :=
  ∀ id t, ledger.troubles.get? id = some t → ledger.holds t.absence = true

theorem Ledger.attached_ofDocument {document : LedgerDocument}
    (h : ∀ t ∈ document.troubles, ∃ a ∈ document.absences, a.id = t.absence) :
    (ofDocument document).Attached := by
  intro id t found
  obtain ⟨u, hu, entry⟩ := List.mem_map.1 (OrderedMap.mem_of_get?_ofList found)
  obtain ⟨-, rfl⟩ := Prod.mk.inj entry
  obtain ⟨a, ha, same⟩ := h u hu
  rw [← same]
  exact OrderedMap.isSome_get?_ofList (List.mem_map_of_mem ha)

namespace ScanContext

variable {context : ScanContext} {scope : ScanScope}

/-- A record is found with a problem if it has the problem by itself, or if it is under a contract and
some chain around it holds the problem against it, at a category that its code is filed under and that is
not left out. -/
def FoundWith (context : ScanContext) (scope : ScanScope) (ledger : Ledger) (r : Absence)
    (problem : Problem) : Prop :=
  problem ∈ scope.standaloneProblems ledger r ∨
    (scope.isCovered r = true ∧ ∃ c ∈ context.rules.categoriesFor r.code,
      context.settings.excludes c = false ∧ ∃ chain,
        context.chainAround scope r c.name ledger = .ok chain ∧ chain.faults r.id problem)

theorem chainAround_absences {before after : Ledger} (same : after.absences = before.absences)
    (record : Absence) (name : CategoryName) : context.chainAround scope record name after =
      context.chainAround scope record name before := by
  unfold chainAround Ledger.absencesIn
  rw [same]

theorem standaloneProblems_absences {before after : Ledger} (same : after.absences = before.absences)
    (r : Absence) : scope.standaloneProblems after r = scope.standaloneProblems before r := by
  unfold ScanScope.standaloneProblems Ledger.absencesIn
  rw [same]

theorem Quiet.absences {before after : Ledger} (same : after.absences = before.absences)
    {record : Absence} {name : CategoryName} (quiet : context.Quiet scope record name before) :
    context.Quiet scope record name after := by
  intro chain built
  rw [chainAround_absences same] at built
  exact quiet chain built

/-- A record that no visited ledger has had is not annotated by the visits. -/
theorem troublesOf_of_new {ledger after : Ledger} {visits : List Visit}
    (run : Visits context scope ledger visits after) (sound : ledger.Sound) (attached : ledger.Attached)
    {a : Absence} (ha : a ∈ after.records) (new : a ∉ ledger.records) : after.troublesOf a.id = [] := by
  refine List.eq_nil_iff_forall_not_mem.2 fun t ht => new ?_
  obtain ⟨⟨id, found⟩, same⟩ := Ledger.mem_troublesOf.1 ht
  obtain ⟨b, hb⟩ := Option.isSome_iff_exists.1 (attached id t ((run.writes sound).1.troubles.1 found).1)
  have old : b ∈ ledger.records := Ledger.mem_records.2 ⟨_, hb⟩
  rwa [(run.later sound).eq_of_id sound ha old (same.symm.trans (sound.keyed hb).symm)]

/-- A new record that no one has annotated since the visits is annotated with nothing. -/
theorem annotated_of_new {ledger between after : Ledger} {visits : List Visit}
    (run : Visits context scope ledger visits between) (sound : ledger.Sound) (attached : ledger.Attached)
    {a : Absence} (ha : a ∈ between.records) (new : a ∉ ledger.records)
    (spared : after.troublesOf a.id = between.troublesOf a.id) : after.Annotated a.id ∅ := by
  have none : after.troublesOf a.id = [] := spared.trans (troublesOf_of_new run sound attached ha new)
  constructor
  · rw [none]
    exact List.nodup_nil
  · intro problem
    rw [none]
    exact iff_of_false List.not_mem_nil OrderedSet.mem_empty

/-- The agenda of a scan holds the loaded records. -/
theorem contains_agenda_iff {ledger : Ledger} (sound : ledger.Sound)
    (loaded : ∀ a ∈ scope.records, a ∈ ledger.records) {a : Absence}
    (sole : ∀ b ∈ ledger.records, b.id = a.id → b = a) :
    (context.agenda scope).contains a.id = true ↔ a ∈ scope.records := by
  have filed := filed_agenda context scope
  rw [Agenda.contains_iff]
  constructor
  · rintro ⟨b, hb, same⟩
    have scanned := filed.origin hb
    rwa [sole b (loaded b scanned) same] at scanned
  · intro scanned
    exact ⟨a, mem_agenda sound loaded filed scanned, rfl⟩

section Separated

variable (separated : context.Separated scope) (indexed : context.rules.Indexed)

include separated indexed

/-- After all visits no chain around a covered record has anything to repair, at any category that was
pending for it. -/
theorem Covers.quiet {agenda : Agenda} {ledger after : Ledger} {visits : List Visit}
    (covers : Covers context scope agenda ledger visits after) (sound : ledger.Sound) {a : Absence}
    (ha : a ∈ agenda.rest) (mine : a ∈ ledger.records) {name : CategoryName}
    (pending : name ∈ agenda.pendingFor a.id) (covered : scope.isCovered a = true) :
    context.Quiet scope a name after := by
  obtain ⟨visit, hv, done⟩ := covers.covers ha pending covered
  obtain ⟨before, between, first, rest, earlier, visited, behind⟩ := covers.run.split hv
  have soundBefore := (earlier.later sound).sound
  have soundBetween := (visited.later soundBefore).sound
  have settles := visited.quiet separated indexed soundBefore
  apply (behind.steady separated indexed soundBetween a name).2
  rcases done with ⟨rfl, rfl⟩ | settled
  · exact settles
  · obtain ⟨chain, built, -, takesPart, listed, -⟩ := visited.of_settled settled
    obtain ⟨laid, here, p, hp, inside, q, hq, rfl⟩ := site_of_participant built
      (fun b hb same => (earlier.later sound).eq_of_id sound hb mine same) takesPart listed
    have there := Chain.layOut_moved indexed.keyed separated.uniform separated.disjoint here hp inside hq
    exact settles.met separated indexed here there ⟨p, hp, p, hp, rfl, a.date, inside, inside⟩

/-- All findings of a scan with a scanned record are what the record is found with in the ledger before
the scan. -/
theorem contains_findings_iff {ledger after : Ledger} (sound : ledger.Sound)
    (loaded : ∀ a ∈ scope.records, a ∈ ledger.records) {visits : List Visit}
    (visited : context.visitAll scope (context.agenda scope) ledger = .ok visits after) {r : Absence}
    (hr : r ∈ scope.records) (problem : Problem) :
    (context.findingsOf scope ledger visits).contains r.id problem = true ↔
      context.FoundWith scope ledger r problem := by
  have filed := filed_agenda context scope
  rw [contains_findings filed (mem_agenda sound loaded filed hr)]
  apply or_congr_right
  apply finds_iff_faults separated.toCoherent indexed sound loaded visited _ hr
  intro first between run record name
  exact (run.steady separated indexed sound record name).1

end Separated

structure Leaves (context : ScanContext) (scope : ScanScope) (ledger after : Ledger) (report : Report) :
    Prop where
  later : ledger.Later after
  tagged : after.Tagged
  verdict : ∀ record name, context.verdict scope record name after =
    context.verdict scope record name ledger
  stay : ∀ r ∈ ledger.records, r ∈ after.records → r.person = scope.person →
    scope.standaloneProblems after r = scope.standaloneProblems ledger r
  come : ∀ a ∈ after.records, a ∉ ledger.records → context.Newcomer scope after a
  quiet : ∀ a ∈ scope.records, scope.isCovered a = true → ∀ c ∈ context.rules.categoriesFor a.code,
    context.settings.excludes c = false → context.Quiet scope a c.name after
  lists : ∀ r ∈ scope.records, ∀ problem,
    report.lists r.id problem = true ↔ context.FoundWith scope ledger r problem
  unlisted : ∀ a ∈ after.records, a ∉ scope.records → report.problemsOf a.id = ∅
  annotated : ∀ a ∈ after.records, a ∈ scope.records ∨ a ∉ ledger.records →
    after.Annotated a.id (report.problemsOf a.id)

/-- A scan finds what there is to find, annotates it, and leaves nothing to repair. -/
theorem leaves_of_scan (separated : context.Separated scope) (indexed : context.rules.Indexed)
    {ledger after : Ledger} (sound : ledger.Sound) (tagged : ledger.Tagged) (attached : ledger.Attached)
    (uncounted : context.Uncounted ledger) (loaded : ∀ a ∈ scope.records, a ∈ ledger.records)
    {report : Report} (ok : context.scan scope ledger = .ok report after) :
    context.Leaves scope ledger after report := by
  obtain ⟨visits, between, troubles, visited, reconciled, rfl⟩ := scan_ok ok
  have filed := filed_agenda context scope
  have covers := visitAll_covers (agenda_distinct context scope) visited
  have earlier := covers.run.later sound
  have reconciles := Ledger.reconcile_ok filed.once (covers.run.tagged sound tagged) reconciled
  have absences := reconciles.absences
  have records : after.records = between.records := congrArg OrderedMap.values absences
  obtain ⟨-, stay, come⟩ := covers.run.records separated indexed sound uncounted
  have inAgenda {a : Absence} (ha : a ∈ after.records) :
      (context.agenda scope).contains a.id = true ↔ a ∈ scope.records :=
    contains_agenda_iff sound loaded fun b hb same =>
      (earlier.eq_of_id sound (records ▸ ha) hb same.symm).symm
  refine ⟨earlier.trans (earlier.sound.later_of_absences absences reconciles.nextId), reconciles.tagged, ?_, ?_, ?_, ?_, ?_,
    ?_, ?_⟩
  · intro record name
    rw [verdict, chainAround_absences absences]
    exact (covers.run.steady separated indexed sound record name).1
  · intro r hr stays mine
    rw [standaloneProblems_absences absences]
    exact stay r hr (records ▸ stays) mine
  · intro a ha new
    obtain ⟨mine, problems, c, hc, replaces, quiet, laid⟩ := come a (records ▸ ha) new
    exact ⟨mine, (standaloneProblems_absences absences a).trans problems, c, hc, replaces,
      quiet.absences absences, laid⟩
  · intro a ha covered c hc included
    have listed := mem_agenda sound loaded filed ha
    have pending : c.name ∈ (context.agenda scope).pendingFor a.id := by
      rw [filed.pending listed, Agenda.mem_categoriesOf]
      exact ⟨c, hc, included, rfl⟩
    apply Quiet.absences absences
    exact covers.quiet separated indexed sound (filed.rest ▸ listed) (loaded a ha) pending covered
  · intro r hr problem
    have listed := mem_agenda sound loaded filed hr
    rw [lists_ofVisits, and_iff_right (Agenda.contains_iff.2 ⟨r, listed, rfl⟩)]
    exact contains_findings_iff separated indexed sound loaded visited hr problem
  · intro a ha outside
    rw [problemsOf_ofVisits, if_neg (mt (inAgenda ha).1 outside)]
  · intro a ha known
    rw [problemsOf_ofVisits]
    by_cases scanned : a ∈ scope.records
    · have inside := (inAgenda ha).2 scanned
      have held : between.holds a.id = true := earlier.sound.holds_of_mem (records ▸ ha)
      rw [if_pos inside]
      refine reconciles.annotated ⟨List.mem_map.2 (Agenda.contains_iff.1 inside), ?_⟩ held
      rw [Bool.eq_false_iff]
      intro gone
      rw [covers.run.removed sound (((covers.run.writes sound).2 a.id).1 gone)] at held
      cases held
    · have outside := mt (inAgenda ha).1 scanned
      rw [if_neg outside]
      apply annotated_of_new covers.run sound attached (records ▸ ha) (known.resolve_left scanned)
      apply reconciles.troublesOf
      intro inside
      exact outside (Agenda.contains_iff.2 (List.mem_map.1 inside.1))

end ScanContext

end Entitlement
