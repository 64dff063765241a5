import Entitlement.Proofs.Renumbering.Scanning
import Entitlement.Proofs.Scan.Idempotence

/-!
Other persons matter to a scan only in that they use up identifiers. Two ledgers that hold the same of a person
give the same report for the person and are left with the same of it, whatever else they hold, but for the
identifiers that the scan gives out: these begin where each ledger has come to. Nothing of anyone else's is
touched. Only where another person has come to the end of the identifiers does a scan break off that succeeds
without that person.
-/

namespace Entitlement

open Ledger

def only (person : PersonId) : PersonId → Bool :=
  fun p => p = person

def others (person : PersonId) : PersonId → Bool :=
  fun p => !only person p

/-- Two ledgers after the same was done for a person to each: as much has been written and as many identifiers
given out, the person's holdings differ by these identifiers alone, and all others' are as before. -/
structure LeftAlike (r : Renumbering) (person : PersonId) (before before' after after' : Ledger) : Prop where
  there : after'.holdings (only person) = r.holdings (after.holdings (only person))
  back : after.holdings (only person) = r.reverse.holdings (after'.holdings (only person))
  nextId : after'.nextId + before.nextId = after.nextId + before'.nextId
  mutations : after'.mutations = after.mutations
  spared : after.holdings (others person) = before.holdings (others person)
  spared' : after'.holdings (others person) = before'.holdings (others person)

/-- Two scans for a person: both fail with the same failure, or both give a report, and the reports differ by
the identifiers given out alone. -/
inductive ScansAlike (r : Renumbering) (person : PersonId) (before before' : Ledger) :
    ActionResult ScanFailure Report → ActionResult ScanFailure Report → Prop where
  | failed {after after' : Ledger} (failure : ScanFailure)
      (left : LeftAlike r person before before' after after') :
    ScansAlike r person before before' (.error failure after) (.error failure after')
  | done {after after' : Ledger} {report report' : Report} (there : report' = r.report report)
      (back : report = r.reverse.report report') (left : LeftAlike r person before before' after after') :
    ScansAlike r person before before' (.ok report after) (.ok report' after')

variable {person : PersonId}

theorem Twins.leftAlike {s : Shift} {before before' after after' : Ledger}
    (t : Twins s (only person) before before' after after') (first : s.first = before.nextId)
    (second : s.second = before'.nextId) :
    LeftAlike s.toRenumbering person before before' after after' where
  there := s.holdings_ledger t.own
  back := by rw [s.holdings_ledger t.own, s.holdings_reverse _]
  nextId := by
    have next : after'.nextId = s.number after.nextId := congrArg (·.nextId) t.own
    have gap := Nat.add_sub_cancel' s.upward
    rw [next, s.number_new t.later, ← first, ← second, ← gap, Nat.add_assoc, Nat.add_comm s.gap]
    rfl
  mutations := congrArg (·.mutations) t.own
  spared := t.spares.holdings
  spared' := t.spares'.holdings

theorem LeftAlike.symm {r : Renumbering} {before before' after after' : Ledger}
    (h : LeftAlike r person before before' after after') :
    LeftAlike r.reverse person before' before after' after :=
  ⟨h.back, h.there, h.nextId.symm, h.mutations.symm, h.spared', h.spared⟩

theorem ScansAlike.symm {r : Renumbering} {before before' : Ledger}
    {x x' : ActionResult ScanFailure Report} (h : ScansAlike r person before before' x x') :
    ScansAlike r.reverse person before' before x' x := by
  cases h with
  | failed failure left => exact .failed failure left.symm
  | done there back left => exact .done back there left.symm

namespace ScanContext

/-- Scans of ledgers of which the second gives out the greater identifiers. -/
theorem scansAlike_upward (context : ScanContext) {directory directory' : Directory} (start : Date)
    {l l' : Ledger} (proper : l.Proper) (proper' : l'.Proper) (positive : 0 < l.nextId)
    (upward : l.nextId ≤ l'.nextId) (mutations : l.mutations = l'.mutations)
    (profile : directory.profile person = directory'.profile person)
    (agree : l.holdings (only person) = l'.holdings (only person))
    (ends : context.scan (.ofLedger l' directory' person start) l' ≠ .exhausted) :
    ScansAlike ⟨l.nextId, l'.nextId⟩ person l l'
      (context.scan (.ofLedger l directory person start) l)
      (context.scan (.ofLedger l' directory' person start) l') := by
  let s : Shift := ⟨⟨l.nextId, l'.nextId⟩, positive, upward⟩
  have mine : only person person = true := decide_eq_true rfl
  have next : s.number l.nextId = l'.nextId := by
    rw [s.number_new (Nat.le_refl _)]
    exact Nat.add_sub_cancel' upward
  have twins : Twins s (only person) l l' l l' := by
    refine ⟨proper, proper', Nat.le_refl _, ?_, .nothing _ l, .nothing _ l'⟩
    rw [part_of_holdings proper proper' agree, s.ledger_part_old proper (Nat.le_refl _), next, ← mutations]
    rfl
  have known {a : Absence} (ha : a ∈ (ScanScope.ofLedger l directory person start).records) :
      a ∈ l.records ∧ a.person = person :=
    (ScanScope.mem_records_ofLedger.1 ha).imp_right And.left
  have old {a : Absence} (ha : a ∈ l.records) : a.id < s.first :=
    proper.sound.below (proper.sound.mem_records_iff.1 ha)
  have loaded : ScanScope.ofLedger l' directory' person start = .ofLedger l directory person start := by
    have same : l'.absencesIn person start .maximum = l.absencesIn person start .maximum := by
      rw [twins.absencesIn mine]
      refine (List.map_congr_left fun a ha => ?_).trans (List.map_id _)
      exact s.record_old (old (mem_absencesIn.1 ha).1)
    unfold ScanScope.ofLedger
    rw [same, profile]
  have scanned : Twinned _ _ (context.scan (.ofLedger l directory person start) l)
      (context.scan (.ofLedger l directory person start) l') := twins.scan mine fun a ha => by
    obtain ⟨mem, own⟩ := known ha
    have found := proper.sound.mem_records_iff.1 mem
    exact ⟨old mem, twins.ours_of_found found (decide_eq_true own)⟩
  rw [loaded] at ends ⊢
  generalize context.scan (.ofLedger l directory person start) l = r at scanned
  generalize context.scan (.ofLedger l directory person start) l' = r' at scanned ends
  cases scanned with
  | ok report t => exact .done rfl (s.report_reverse report).symm (t.leftAlike rfl rfl)
  | error failure t => exact .failed failure (t.leftAlike rfl rfl)
  | exhausted r => exact absurd rfl ends

/-- Other persons do not matter while there are identifiers. Of two documents that can be loaded, whose attendance
days have different identifiers and whose annotations are all on records, let the ledgers hold the same records,
annotations and days of a person. If a scan for the person comes to an end on both, it fails on both with the same
failure, or succeeds on both with the same report, and leaves the same of the person, where the identifiers that it
gives out begin at the next one of each ledger; whatever the rules and whatever else there is. Of others it changes
nothing. -/
theorem scan_alike (context : ScanContext) {directory directory' : Directory} (start : Date)
    {document document' : LedgerDocument} {l l' : Ledger} (loaded : load? document = some l)
    (loaded' : load? document' = some l') (once : l.days.values.Nodup) (once' : l'.days.values.Nodup)
    (attached : l.Attached) (attached' : l'.Attached)
    (profile : directory.profile person = directory'.profile person)
    (agree : l.holdings (only person) = l'.holdings (only person))
    (ends : context.scan (.ofLedger l directory person start) l ≠ .exhausted)
    (ends' : context.scan (.ofLedger l' directory' person start) l' ≠ .exhausted) :
    ScansAlike ⟨l.nextId, l'.nextId⟩ person l l' (context.scan (.ofLedger l directory person start) l)
      (context.scan (.ofLedger l' directory' person start) l') := by
  obtain ⟨-, rfl⟩ := load?_eq_some.1 loaded
  obtain ⟨-, rfl⟩ := load?_eq_some.1 loaded'
  have proper := proper_ofDocument once attached
  have proper' := proper_ofDocument once' attached'
  -- Only an upward renumbering keeps the order of identifiers; otherwise the ledgers change places.
  rcases Nat.le_total (ofDocument document).nextId (ofDocument document').nextId with upward | downward
  · exact scansAlike_upward context start proper proper' (Nat.succ_pos _) upward rfl profile agree ends'
  · have other := scansAlike_upward context start proper' proper (Nat.succ_pos _) downward rfl profile.symm
      agree.symm ends
    exact other.symm

/-- The sample with another person in it, who has a record with the last identifier that a ledger can be loaded
with. -/
def crowdedDocument : LedgerDocument :=
  { sampleDocument with
    absences := ⟨⟨2, "09H1", .sample 2024 4 1, .nothing, none, none⟩, greatestId - 1⟩ :: sampleDocument.absences }

/-- The scan of the sample succeeds. Beside the other person, with the same rules and for the same holdings, it
breaks off: there is no identifier left for the day that it has to make. -/
theorem sample_crowded_out : ∃ l l' report after, load? sampleDocument = some l ∧
    load? crowdedDocument = some l' ∧ l.days.values.Nodup ∧ l'.days.values.Nodup ∧ l.Attached ∧ l'.Attached ∧
    sampleDocument.persons = crowdedDocument.persons ∧ l.holdings (only 1) = l'.holdings (only 1) ∧
    sample.scan (.ofLedger l sampleDocument.persons 1 .minimum) l = .ok report after ∧
    sample.scan (.ofLedger l' crowdedDocument.persons 1 .minimum) l' = .exhausted := by
  have room : (Ledger.ofDocument sampleDocument).nextId ≤ greatestId := by decide
  have room' : (Ledger.ofDocument crowdedDocument).nextId ≤ greatestId := by decide
  have agree : (Ledger.ofDocument sampleDocument).holdings (only 1) =
      (Ledger.ofDocument crowdedDocument).holdings (only 1) := of_decide_eq_true (by cbv)
  have breaksOff : (sample.scan (.ofLedger (.ofDocument crowdedDocument) crowdedDocument.persons 1 .minimum)
      (.ofDocument crowdedDocument)).isExhausted = true := by cbv
  obtain ⟨report, after, scanned, -⟩ := sample_repairs
  exact ⟨_, _, report, after, load?_eq_some.2 ⟨room, rfl⟩, load?_eq_some.2 ⟨room', rfl⟩, by decide, by decide,
    attached_ofDocument (by decide), attached_ofDocument (by decide), rfl, agree, scanned,
    ActionResult.isExhausted_iff.1 breaksOff⟩

def sharedDocument : LedgerDocument :=
  { sampleDocument with
    absences := ⟨⟨2, "09H1", .sample 2024 4 1, .nothing, none, some 8⟩, 9⟩ :: sampleDocument.absences
    troubles := ⟨10, 9, .outOfContract⟩ :: sampleDocument.troubles
    days := [⟨8, 2, .sample 2024 4 1⟩] }

/-- The scan of the sample makes a day and writes a record on it, with the next identifiers; beside the other
person it does the same with the next ones there. -/
theorem sample_beside_another : ∃ report after report' after',
    sample.scan (.ofLedger (.ofDocument sampleDocument) sampleDocument.persons 1 .minimum)
        (.ofDocument sampleDocument) = .ok report after ∧
      sample.scan (.ofLedger (.ofDocument sharedDocument) sharedDocument.persons 1 .minimum)
        (.ofDocument sharedDocument) = .ok report' after' ∧
      report.inserted.map (fun a => (a.id, a.day)) = [(6, some 5)] ∧
      report'.inserted.map (fun a => (a.id, a.day)) = [(12, some 11)] ∧ report.deleted = [3] ∧
      report'.deleted = [3] ∧
      LeftAlike ⟨5, 11⟩ 1 (.ofDocument sampleDocument) (.ofDocument sharedDocument) after after' := by
  have run : sample.scansTo (.ofLedger (.ofDocument sampleDocument) sampleDocument.persons 1 .minimum)
      (.ofDocument sampleDocument) (fun report _ => decide (report.deleted = [3]) &&
        decide (report.inserted = [⟨⟨1, "09H2", .sample 2024 4 1, .nothing, none, some 5⟩, 6⟩])) =
          true := by cbv
  have run' : sample.scansTo (.ofLedger (.ofDocument sharedDocument) sharedDocument.persons 1 .minimum)
      (.ofDocument sharedDocument) (fun _ _ => true) = true := by cbv
  have starts : (Ledger.ofDocument sampleDocument).nextId = 5 ∧
      (Ledger.ofDocument sharedDocument).nextId = 11 := by
    constructor
    · cbv
    · cbv
  have loaded : load? sampleDocument = some (.ofDocument sampleDocument) :=
    load?_eq_some.2 ⟨by decide, rfl⟩
  have loaded' : load? sharedDocument = some (.ofDocument sharedDocument) :=
    load?_eq_some.2 ⟨by decide, rfl⟩
  have attached : (Ledger.ofDocument sampleDocument).Attached := attached_ofDocument (by decide)
  have attached' : (Ledger.ofDocument sharedDocument).Attached := attached_ofDocument (by decide)
  have profile : sampleDocument.persons.profile 1 = sharedDocument.persons.profile 1 := rfl
  have agree : (Ledger.ofDocument sampleDocument).holdings (only 1) =
      (Ledger.ofDocument sharedDocument).holdings (only 1) := of_decide_eq_true (by cbv)
  obtain ⟨report, after, scanned, passes⟩ := scansTo_iff.1 run
  obtain ⟨report', after', scanned', -⟩ := scansTo_iff.1 run'
  simp only [Bool.and_eq_true, decide_eq_true_eq] at passes
  obtain ⟨deleted, inserted⟩ := passes
  have alike := scan_alike sample .minimum loaded loaded' (by decide) (by decide) attached attached' profile
    agree (by simp [scanned]) (by simp [scanned'])
  rw [starts.1, starts.2, scanned, scanned'] at alike
  cases alike with
  | done there _ left =>
    refine ⟨report, after, report', after', scanned, scanned', ?_, ?_, deleted, ?_, left⟩
    · rw [inserted]
      rfl
    · rw [there, Renumbering.report, inserted]
      rfl
    · rw [there, Renumbering.report, deleted]
      rfl

end ScanContext

end Entitlement
