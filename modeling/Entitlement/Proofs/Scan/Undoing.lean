import Entitlement.Proofs.Replacing.Rebuilding
import Entitlement.Proofs.Scan.Idempotence

/-!
Records that a scan writes and deletes again. Every chain judges the replacing records on its dates for itself,
those among them that an earlier chain of the same scan has written. So a record is undone only where two chains
judge its code differently: the earlier requires it on the date, the later does not. Where every replacing code
serves one category the chains that could do so are the same chain, and nothing is undone.
-/

namespace Entitlement

namespace Chain

/-- On a day that the repair of a chain may touch a record's code is required. -/
def Asks (chain : Chain) (a : Absence) : Prop :=
  ∃ e ∈ chain.repairDays, e.1.replaces a = true ∧ e.2.date = a.date ∧ e.2.isRequired a.code = true

/-- On a day that the repair of a chain may touch a record is found wrong. -/
def Rejects (chain : Chain) (a : Absence) : Prop :=
  ∃ e ∈ chain.repairDays, e.1.replaces a = true ∧ e.2.date = a.date ∧ a ∈ e.2.wrongReplacings

end Chain

namespace ScanContext

variable {context : ScanContext} {scope : ScanScope}

/-- A visit that has written or deleted anything has carried out the repair of its chain. -/
theorem Visited.acted {visit : Visit} {before after : Ledger}
    (visited : Visited context scope visit.record visit.category before visit.result after)
    (acted : visit.effect ≠ .empty) : ∃ chain repair, visit.chain? = some chain ∧
      context.chainAround scope visit.record visit.category before = .ok chain ∧ chain.periods ≠ [] ∧
      chain.repair context.rules = .ok repair ∧ Ledger.carryOut repair before = .ok visit.effect after := by
  obtain ⟨record, category, result⟩ := visit
  cases visited with
  | aborted _ => exact absurd rfl acted
  | childMissing _ _ => exact absurd rfl acted
  | noPeriods _ _ _ => exact absurd rfl acted
  | repaired built _ nonempty planned carried =>
    exact ⟨_, _, rfl, built, nonempty, planned, carried⟩

theorem effect_ne_of_inserted {visit : Visit} {a : Absence} (ha : a ∈ visit.effect.inserted) :
    visit.effect ≠ .empty := by
  intro none
  rw [none] at ha
  exact absurd ha List.not_mem_nil

theorem effect_ne_of_deleted {visit : Visit} {id : AbsenceId} (h : id ∈ visit.effect.deleted) :
    visit.effect ≠ .empty := by
  intro none
  rw [none] at h
  exact absurd h List.not_mem_nil

/-- A visit writes only what its chain asks for. -/
theorem Visited.asks {visit : Visit} {before after : Ledger}
    (visited : Visited context scope visit.record visit.category before visit.result after)
    (sound : before.Sound) {a : Absence} (ha : a ∈ visit.effect.inserted) :
    ∃ chain, visit.chain? = some chain ∧ chain.Asks a := by
  obtain ⟨chain, repair, known, built, -, planned, carried⟩ := visited.acted (effect_ne_of_inserted ha)
  obtain ⟨laid, hlaid, filled⟩ := chainAround_ok built
  obtain ⟨person, -, settled⟩ := Chain.fill_settled (Chain.layOut_fresh hlaid).2.2 filled
  obtain ⟨-, -, -, made⟩ := Ledger.carryOut_ok sound carried
  obtain ⟨plans, -, -⟩ := Chain.repair_ok planned
  obtain ⟨addition, h, -, day, draft⟩ := Chain.forall₂_mem_right made ha
  obtain ⟨e, he, asks⟩ := (Chain.mem_additions plans).1 h
  obtain ⟨required, asked, -, dated, coded⟩ := Chain.addition?_ok asks
  obtain ⟨-, inside, coding⟩ := Chain.covers_of_repairDays (person ▸ settled) he
  have code : a.code = required.code := (congrArg AbsenceDraft.code draft).trans coded
  have date : e.2.date = a.date := dated.symm.trans (congrArg AbsenceDraft.date draft).symm
  have covered : e.1.covers a.date = true := DateRange.contains_iff.2 (date ▸ inside)
  refine ⟨chain, known, e, he, ?_, date, ?_⟩
  · rw [Period.replaces, covered, code, coding required asked, Bool.and_self]
  · simp [PeriodDay.isRequired, asked, code]

/-- A visit deletes only what its chain finds wrong. -/
theorem Visited.rejects {visit : Visit} {before after : Ledger}
    (visited : Visited context scope visit.record visit.category before visit.result after)
    {id : AbsenceId} (gone : id ∈ visit.effect.deleted) :
    ∃ chain, visit.chain? = some chain ∧ ∃ b ∈ before.records, b.id = id ∧ chain.Rejects b := by
  obtain ⟨chain, repair, known, built, -, planned, carried⟩ := visited.acted (effect_ne_of_deleted gone)
  obtain ⟨laid, hlaid, filled⟩ := chainAround_ok built
  obtain ⟨person, -, settled⟩ := Chain.fill_settled (Chain.layOut_fresh hlaid).2.2 filled
  obtain ⟨-, removals, -⟩ := Chain.repair_ok planned
  have removed := (Ledger.deleted_of_carryOut carried).1 gone
  rw [removals] at removed
  obtain ⟨e, he, b, wrong, mem, -, replaces, date, same⟩ := Chain.stands_of_removed (person ▸ settled)
    (fun a ha => (ScanScope.mem_gathered.1 ha).1) removed.1
  exact ⟨chain, known, b, mem, same, e, he, replaces, date, wrong⟩

/-- What a visit deletes was there before, and so is none of what it writes. -/
theorem Visited.inserted_stays {visit : Visit} {before after : Ledger}
    (visited : Visited context scope visit.record visit.category before visit.result after)
    (sound : before.Sound) {a : Absence} (ha : a ∈ visit.effect.inserted) :
    a.id ∉ visit.effect.deleted := by
  intro gone
  obtain ⟨-, -, b, hb, same, -⟩ := visited.rejects gone
  have below := sound.below (sound.mem_records_iff.1 hb)
  exact absurd (same ▸ below) (Nat.not_lt.2 ((visited.writes sound).1.inserts ha).1)

/-- A visit writes a record, and after some more visits another deletes it. -/
structure Undoes (context : ScanContext) (scope : ScanScope) (a : Absence) (writer deleter : Visit)
    (before written found after : Ledger) : Prop where
  sound : before.Sound
  writing : Visited context scope writer.record writer.category before writer.result written
  wrote : a ∈ writer.effect.inserted
  passing : ∃ visits, Visits context scope written visits found
  held : a ∈ found.records
  deleting : Visited context scope deleter.record deleter.category found deleter.result after
  gone : a.id ∈ deleter.effect.deleted

/-- A record that some visits write and delete again is written by one of them and deleted by a later one. -/
theorem Visits.undone {ledger after : Ledger} {visits : List Visit}
    (run : Visits context scope ledger visits after) (sound : ledger.Sound) {a : Absence}
    (ha : a ∈ insertedBy visits) (gone : a.id ∈ deletedBy visits) :
    ∃ writer deleter before written found after, [writer, deleter].Sublist visits ∧
      Undoes context scope a writer deleter before written found after := by
  induction run with
  | done => exact absurd ha List.not_mem_nil
  | @step ledger between after visit rest first later ih =>
    have soundFirst := (first.later sound).sound
    have writes := (first.writes sound).1
    rw [insertedBy, List.flatMap_cons, List.mem_append] at ha
    rw [deletedBy, List.flatMap_cons, List.mem_append] at gone
    rcases ha with here | behind
    · have there : a ∈ between.records := writes.records.2 ⟨.inr here, first.inserted_stays sound here⟩
      have gone := gone.resolve_left (first.inserted_stays sound here)
      obtain ⟨deleter, hd, gone⟩ := List.mem_flatMap.1 gone
      obtain ⟨found, last, passed, _, earlier, visited, _⟩ := later.split hd
      obtain ⟨-, -, b, hb, same, -⟩ := visited.rejects gone
      obtain rfl := (earlier.later soundFirst).eq_of_id soundFirst hb there same
      exact ⟨visit, deleter, ledger, between, found, last, .cons_cons visit (List.singleton_sublist.2 hd),
        sound, first, here, ⟨passed, earlier⟩, hb, visited, gone⟩
    · have new := ((later.writes soundFirst).1.inserts behind).1
      have gone := gone.resolve_left fun early => Nat.not_lt.2 new (writes.deletes early)
      obtain ⟨writer, deleter, before, written, found, last, order, undoes⟩ := ih soundFirst behind gone
      exact ⟨writer, deleter, before, written, found, last, .cons visit order, undoes⟩

/-- Two chains that a scan builds one after the other judge a record differently: the earlier asks for it, the
later finds it wrong. -/
def Disputed (context : ScanContext) (scope : ScanScope) (ledger : Ledger) (a : Absence) : Prop :=
  ∃ visits between, context.visitAll scope (context.agenda scope) ledger = .ok visits between ∧
    ∃ earlier later, [earlier, later].Sublist (visits.filterMap (·.chain?)) ∧
      earlier.Asks a ∧ later.Rejects a

/-- Configurations in which no two chains dispute: the categories of a chain have periods of one kind and
contracts are disjoint, so chains that share a period are the same; and every replacing code replaces in one
category, and is neither taken nor completes in any. -/
structure Undisputed (context : ScanContext) (scope : ScanScope) : Prop where
  uniform : context.rules.Uniform
  disjoint : scope.profile.Disjoint
  owned : ∀ c ∈ context.rules.all, ∀ c' ∈ context.rules.all, ∀ code, c.replaces code = true →
    c'.replaces code = true → c = c'
  spared : ∀ c ∈ context.rules.all, ∀ code, c.replaces code = true → ∀ c' ∈ context.rules.all,
    c'.takes code = false ∧ c'.completes code = false

def unfiltered (context : ScanContext) : ScanContext :=
  { context with settings := .everything }

theorem Undisputed.separated (undisputed : context.Undisputed scope) :
    context.unfiltered.Separated scope where
  uniform := undisputed.uniform
  disjoint := undisputed.disjoint
  together _ _ _ _ _ := rfl
  owned := undisputed.owned
  spared := undisputed.spared

/-- The settings say which visits are made, not what a visit does. -/
theorem Visited.unfiltered {record : Absence} {name : CategoryName} {result : VisitResult}
    {before after : Ledger} (visited : Visited context scope record name before result after) :
    Visited context.unfiltered scope record name before result after := by
  cases visited with
  | aborted failed => exact .aborted failed
  | childMissing built missing => exact .childMissing built missing
  | noPeriods built present none => exact .noPeriods built present none
  | repaired built present nonempty planned carried =>
    exact .repaired built present nonempty planned carried

theorem Visits.unfiltered {before after : Ledger} {visits : List Visit}
    (run : Visits context scope before visits after) : Visits context.unfiltered scope before visits after := by
  induction run with
  | done => exact .done
  | step first _ ih => exact .step first.unfiltered ih

/-- A visit to a chain that has nothing to repair writes and deletes nothing. -/
theorem Visited.effect_of_quiet {visit : Visit} {before after : Ledger}
    (visited : Visited context scope visit.record visit.category before visit.result after)
    (quiet : context.Quiet scope visit.record visit.category before) : visit.effect = .empty := by
  by_contra acted
  obtain ⟨chain, repair, -, built, -, planned, carried⟩ := visited.acted acted
  cases planned.symm.trans (quiet chain built)
  rw [Ledger.carryOut_nothing] at carried
  injection carried with nothing
  exact acted nothing.symm

/-- A record that a visit writes or deletes stands in a period of a category that replaces with its code. -/
theorem Visited.handles (separated : context.Separated scope) (indexed : context.rules.Indexed)
    {visit : Visit} {before after : Ledger}
    (visited : Visited context scope visit.record visit.category before visit.result after)
    (sound : before.Sound) {a : Absence}
    (handled : a ∈ visit.effect.inserted ∨ (a ∈ before.records ∧ a.id ∈ visit.effect.deleted)) :
    ∃ laid, Chain.layOut context.rules (scope.pivot visit.category visit.record.date) = .ok laid ∧
      ∃ p ∈ laid.periods, p.category ∈ context.rules.all ∧ a.date ∈ p.range ∧
        p.category.replaces a.code = true := by
  have acted : visit.effect ≠ .empty := by
    rcases handled with new | ⟨-, gone⟩
    · exact effect_ne_of_inserted new
    · exact effect_ne_of_deleted gone
  obtain ⟨chain, repair, -, built, -, planned, carried⟩ := visited.acted acted
  obtain ⟨-, amends⟩ := chainAround_amends sound built planned carried
  obtain ⟨laid, here, filled⟩ := chainAround_ok built
  have replaceable : chain.Replaceable a := by
    rcases handled with new | ⟨held, gone⟩
    · exact (amends.writes new).2.2
    · have removed := (Ledger.deleted_of_carryOut carried).1 gone
      rw [(Chain.repair_ok planned).2.1] at removed
      exact amends.removes held removed.1
  exact ⟨laid, here, replaces_of_replaceable separated indexed here (Chain.fill_keeps filled).2.2 replaceable⟩

/-- In separated configurations the chains of two visits that would write and delete one record meet, so the
later has nothing to repair. -/
theorem Undoes.impossible (separated : context.Separated scope) (indexed : context.rules.Indexed) {a : Absence}
    {writer deleter : Visit} {before written found after : Ledger}
    (undoes : Undoes context scope a writer deleter before written found after) : False := by
  have soundWritten := (undoes.writing.later undoes.sound).sound
  obtain ⟨passed, run⟩ := undoes.passing
  have soundFound := (run.later soundWritten).sound
  obtain ⟨laid, here, p, hp, known, inP, replaces⟩ :=
    undoes.writing.handles separated indexed undoes.sound (.inl undoes.wrote)
  obtain ⟨laid', there, q, hq, known', inQ, replaces'⟩ :=
    undoes.deleting.handles separated indexed soundFound (.inr ⟨undoes.held, undoes.gone⟩)
  have meets : laid.Meets laid' :=
    ⟨p, hp, q, hq, separated.owned _ known _ known' a.code replaces replaces', a.date, inP, inQ⟩
  have quiet := (run.steady separated indexed soundWritten writer.record writer.category).2
    (undoes.writing.quiet separated indexed undoes.sound)
  exact effect_ne_of_deleted undoes.gone
    (undoes.deleting.effect_of_quiet (quiet.met separated indexed here there meets))

/-- A scan deletes a record that it has itself written only if two of its chains, one after the other, judge the
record differently. In configurations in which no two chains can, no scan does. -/
theorem undone_only_if_disputed (indexed : context.rules.Indexed) {ledger after : Ledger}
    (sound : ledger.Sound) {report : Report} (ok : context.scan scope ledger = .ok report after) :
    (∀ a ∈ report.inserted, a.id ∈ report.deleted → context.Disputed scope ledger a) ∧
      (context.Undisputed scope → ∀ a ∈ report.inserted, a.id ∉ report.deleted) := by
  obtain ⟨visits, between, troubles, visited, -, rfl⟩ := scan_ok ok
  have run := (visitAll_covers (agenda_distinct context scope) visited).run
  refine ⟨fun a ha gone => ?_, fun undisputed a ha => ?_⟩
  · obtain ⟨writer, deleter, _, _, _, _, order, undoes⟩ := run.undone sound ha gone
    obtain ⟨earlier, known, asks⟩ := undoes.writing.asks undoes.sound undoes.wrote
    obtain ⟨later, known', b, hb, same, rejects⟩ := undoes.deleting.rejects undoes.gone
    obtain ⟨passed, between⟩ := undoes.passing
    have soundWritten := (undoes.writing.later undoes.sound).sound
    obtain rfl := (between.later soundWritten).sound.eq_of_id hb undoes.held same
    refine ⟨visits, _, visited, earlier, later, ?_, asks, rejects⟩
    have chains := order.filterMap (·.chain?)
    simpa only [List.filterMap_cons, known, known', List.filterMap_nil] using chains
  · intro gone
    obtain ⟨_, _, _, _, _, _, -, undoes⟩ := run.unfiltered.undone sound ha gone
    exact undoes.impossible undisputed.separated indexed

theorem sample_undisputed : sample.Undisputed sampleScope :=
  ⟨sample_separated.uniform, sample_separated.disjoint, sample_separated.owned, sample_separated.spared⟩

/-- The record that the scan of the sample writes is not deleted by it. -/
theorem sample_lasting : ∃ report after,
    sample.scan sampleScope (.ofDocument sampleDocument) = .ok report after ∧
      report.inserted.length = 1 ∧ report.deleted = [3] ∧ ∀ a ∈ report.inserted, a.id ∉ report.deleted := by
  have run : sample.scansTo sampleScope (.ofDocument sampleDocument) (fun report _ =>
      decide (report.inserted.length = 1) && decide (report.deleted = [3])) = true := by cbv
  obtain ⟨report, after, scanned, passes⟩ := scansTo_iff.1 run
  simp only [Bool.and_eq_true, decide_eq_true_eq] at passes
  obtain ⟨inserted, deleted⟩ := passes
  have indexed : sample.rules.Indexed := RuleTree.indexed_ofLists _ _
  have lasting := (undone_only_if_disputed indexed (Ledger.sound_ofDocument _) scanned).2
  exact ⟨report, after, scanned, inserted, deleted, lasting sample_undisputed⟩

/-- Two categories that replace with one code, each on its own. -/
def twoHourly : ScanContext :=
  ⟨.ofLists [Chain.hourlyOf "DAY" "09M" none, Chain.hourlyOf "NIGHT" "10M" none] [⟨"09H1", "", [.nothing]⟩],
    .unknown, .standard⟩

def twoHourlyDocument : LedgerDocument :=
  { sampleDocument with
    absences := [⟨⟨1, "09M", .sample 2024 4 1, .specifiedMinutes, some 60, none⟩, 1⟩,
      ⟨⟨1, "10M", .sample 2024 5 1, .specifiedMinutes, some 30, none⟩, 2⟩]
    troubles := [] }

def undoneIn (ledger : Ledger) : Option (List AbsenceId × Ledger) :=
  match twoHourly.scan (.ofLedger ledger twoHourlyDocument.persons 1 .minimum) ledger with
  | .ok report after => some ((report.inserted.map (·.id)).filter fun id => id ∈ report.deleted, after)
  | _ => none

theorem undoneIn_ok {ledger after : Ledger} {ids : List AbsenceId} (h : undoneIn ledger = some (ids, after)) :
    ∃ report, twoHourly.scan (.ofLedger ledger twoHourlyDocument.persons 1 .minimum) ledger =
        .ok report after ∧ ∀ id ∈ ids, id ∈ report.inserted.map (·.id) ∧ id ∈ report.deleted := by
  unfold undoneIn at h
  split at h
  · next report between scanned =>
    cases h
    exact ⟨report, scanned, fun id hid => by simpa using List.mem_filter.1 hid⟩
  · cases h

/-- The hour of rest for the day is written for the one category and deleted for the other; the next scan finds
it missing and does the same again. -/
theorem rest_undone_again : ∃ report after report' after',
    twoHourly.scan (.ofLedger (.ofDocument twoHourlyDocument) twoHourlyDocument.persons 1 .minimum)
        (.ofDocument twoHourlyDocument) = .ok report after ∧
      (∃ id, id ∈ report.inserted.map (·.id) ∧ id ∈ report.deleted) ∧
      twoHourly.scan (.ofLedger after twoHourlyDocument.persons 1 .minimum) after = .ok report' after' ∧
      ∃ id, id ∈ report'.inserted.map (·.id) ∧ id ∈ report'.deleted := by
  have run : ((undoneIn (.ofDocument twoHourlyDocument)).any fun first =>
      first.1 = [4] && (undoneIn first.2).any fun second => second.1 = [5]) = true := by cbv
  obtain ⟨⟨ids, after⟩, found, rest⟩ := (Option.any_eq_true _ _).1 run
  rw [Bool.and_eq_true, decide_eq_true_eq] at rest
  obtain ⟨first, again⟩ : ids = [4] ∧ _ := rest
  obtain ⟨⟨ids', after'⟩, found', second⟩ := (Option.any_eq_true _ _).1 again
  have second : ids' = [5] := of_decide_eq_true second
  obtain ⟨report, scanned, undone⟩ := undoneIn_ok found
  obtain ⟨report', scanned', undone'⟩ := undoneIn_ok found'
  refine ⟨report, after, report', after', scanned, ⟨4, undone 4 ?_⟩, scanned', ⟨5, undone' 5 ?_⟩⟩
  · exact first ▸ List.mem_singleton_self 4
  · exact second ▸ List.mem_singleton_self 5

end ScanContext

end Entitlement
