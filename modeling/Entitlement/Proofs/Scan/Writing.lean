import Entitlement.Proofs.Ledger.Annotations
import Entitlement.Proofs.Replacing.Carrying
import Entitlement.Proofs.Scan.Sites
import Entitlement.Proofs.Scan.Visits
import Entitlement.Scan.Run

/-!
What the visits of a scan write, whatever the rules. Each repairs a chain that was filled with records of
the ledger, so it deletes only records that are there, and their annotations with them; what it writes
doubles no record that is left. No deleted record comes back.
-/

namespace Entitlement

namespace ScanContext

variable {context : ScanContext} {scope : ScanScope}

structure Writes (scope : ScanScope) (deleted : List AbsenceId) (inserted : List Absence)
    (before after : Ledger) : Prop where
  nextId : before.nextId ≤ after.nextId
  records {a : Absence} : a ∈ after.records ↔ (a ∈ before.records ∨ a ∈ inserted) ∧ a.id ∉ deleted
  troubles {id : TroubleId} {t : Trouble} : after.troubles.get? id = some t ↔
    before.troubles.get? id = some t ∧ t.absence ∉ deleted
  deletes {id : AbsenceId} : id ∈ deleted → id < after.nextId
  inserts {a : Absence} : a ∈ inserted →
    before.nextId ≤ a.id ∧ a.person = scope.person ∧ a.kind = .nothing
  lacked {a b : Absence} : a ∈ inserted → b ∈ before.records → b.id ∉ deleted → ¬ b.Doubles a

theorem Writes.nothing (ledger : Ledger) : Writes scope [] [] ledger ledger where
  nextId := Nat.le_refl _
  records := by simp
  troubles := by simp
  deletes h := absurd h List.not_mem_nil
  inserts h := absurd h List.not_mem_nil
  lacked h := absurd h List.not_mem_nil

/-- What was written first and what was written later. -/
theorem Writes.trans {first second third : Ledger} {deleted deleted' : List AbsenceId}
    {inserted inserted' : List Absence} (before : Writes scope deleted inserted first second)
    (after : Writes scope deleted' inserted' second third) :
    Writes scope (deleted ++ deleted') (inserted ++ inserted') first third where
  nextId := Nat.le_trans before.nextId after.nextId
  records {a} := by
    -- What is written later has an identifier above those deleted before.
    have fresh : a ∈ inserted' → a.id ∉ deleted := fun new gone =>
      Nat.not_lt.2 (after.inserts new).1 (before.deletes gone)
    rw [after.records, before.records, List.mem_append, List.mem_append, not_or]
    constructor
    · rintro ⟨⟨old, stays⟩ | new, last⟩
      · exact ⟨old.imp_right .inl, stays, last⟩
      · exact ⟨.inr (.inr new), fresh new, last⟩
    · rintro ⟨old | early | new, stays, last⟩
      · exact ⟨.inl ⟨.inl old, stays⟩, last⟩
      · exact ⟨.inl ⟨.inr early, stays⟩, last⟩
      · exact ⟨.inr new, last⟩
  troubles := by
    intro id t
    rw [after.troubles, before.troubles, List.mem_append, not_or, and_assoc]
  deletes h := by
    rcases List.mem_append.1 h with early | late
    · exact Nat.lt_of_lt_of_le (before.deletes early) after.nextId
    · exact after.deletes late
  inserts h := by
    rcases List.mem_append.1 h with early | late
    · exact before.inserts early
    · obtain ⟨fresh, rest⟩ := after.inserts late
      exact ⟨Nat.le_trans before.nextId fresh, rest⟩
  lacked {a b} ha hb stays := by
    rw [List.mem_append, not_or] at stays
    rcases List.mem_append.1 ha with early | late
    · exact before.lacked early hb stays.1
    · exact after.lacked late (before.records.2 ⟨.inl hb, stays.1⟩) stays.2

/-- A chain around a record is for the scanned person. -/
theorem person_of_chainAround {record : Absence} {name : CategoryName} {ledger : Ledger} {chain : Chain}
    (built : context.chainAround scope record name ledger = .ok chain) : chain.person = scope.person := by
  obtain ⟨laid, hlaid, filled⟩ := chainAround_ok built
  exact (Chain.fill_keeps filled).1.trans (Chain.layOut_fresh hlaid).1

/-- The repair of the chain around a record amends the ledger that the chain was filled from. -/
theorem chainAround_amends {record : Absence} {name : CategoryName} {ledger after : Ledger}
    (sound : ledger.Sound) {chain : Chain}
    (built : context.chainAround scope record name ledger = .ok chain) {repair : Repair}
    {effect : RepairEffect} (planned : chain.repair context.rules = .ok repair)
    (carried : Ledger.carryOut repair ledger = .ok effect after) :
    chain.person = scope.person ∧
      chain.Amends ledger after (chain.removals.map (·.absence)) effect.inserted := by
  obtain ⟨laid, hlaid, filled⟩ := chainAround_ok built
  obtain ⟨person, places, settled⟩ := Chain.fill_settled (Chain.layOut_fresh hlaid).2.2 filled
  have mine := person_of_chainAround built
  rw [← person] at settled
  refine ⟨mine, Chain.amends_of_carryOut sound planned carried settled
    (fun a ha => (ScanScope.mem_gathered.1 ha).1) fun a ha own p hp inside => ?_⟩
  obtain ⟨q, hq, place⟩ := Chain.mem_of_places places hp
  exact ScanScope.mem_gathered.2
    ⟨ha, own.trans mine, Chain.mem_reach (.inl ⟨q, hq, (Prod.mk.inj place).2 ▸ inside⟩)⟩

/-- The repair of a chain around a record removes records of the scanned person. -/
theorem held_of_removal {record : Absence} {name : CategoryName} {ledger : Ledger} {chain : Chain}
    (built : context.chainAround scope record name ledger = .ok chain) {id : AbsenceId}
    (h : id ∈ chain.removals.map (·.absence)) : ∃ a ∈ ledger.records, a.person = scope.person ∧ a.id = id := by
  obtain ⟨laid, hlaid, filled⟩ := chainAround_ok built
  obtain ⟨person, -, settled⟩ := Chain.fill_settled (Chain.layOut_fresh hlaid).2.2 filled
  rw [← person] at settled
  obtain ⟨-, -, a, -, held, mine, -, -, named⟩ :=
    Chain.stands_of_removed settled (fun a ha => (ScanScope.mem_gathered.1 ha).1) h
  exact ⟨a, held, mine.trans (person_of_chainAround built), named⟩

/-- What a visit writes. It finds nothing gone that it has not deleted itself. -/
theorem Visited.writes {visit : Visit} {ledger after : Ledger}
    (visited : Visited context scope visit.record visit.category ledger visit.result after)
    (sound : ledger.Sound) :
    Writes scope visit.effect.deleted visit.effect.inserted ledger after ∧
      ∀ id ∈ visit.effect.skipped, id ∈ visit.effect.deleted := by
  have later := visited.later sound
  obtain ⟨record, name, result⟩ := visit
  cases visited with
  | aborted _ => exact ⟨.nothing ledger, fun id h => absurd h List.not_mem_nil⟩
  | childMissing _ _ => exact ⟨.nothing ledger, fun id h => absurd h List.not_mem_nil⟩
  | noPeriods _ _ _ => exact ⟨.nothing ledger, fun id h => absurd h List.not_mem_nil⟩
  | @repaired _ chain repair effect built _ _ planned carried =>
    obtain ⟨mine, amends⟩ := chainAround_amends sound built planned carried
    have removals : repair.removals.map (·.absence) = chain.removals.map (·.absence) :=
      congrArg (List.map _) (Chain.repair_ok planned).2.1
    have held {id : AbsenceId} (h : id ∈ chain.removals.map (·.absence)) : ledger.holds id = true := by
      obtain ⟨a, ha, rfl⟩ := amends.held h
      exact sound.holds_of_mem ha
    have deleted {id : AbsenceId} :
        id ∈ effect.deleted ↔ id ∈ chain.removals.map (·.absence) := by
      rw [Ledger.deleted_of_carryOut carried, removals]
      exact and_iff_left_of_imp held
    have below {id : AbsenceId} (h : id ∈ effect.deleted) : id < ledger.nextId := by
      obtain ⟨a, ha, rfl⟩ := amends.held (deleted.1 h)
      exact sound.below (sound.mem_records_iff.1 ha)
    refine ⟨⟨later.nextId, fun {a} => ?_, Ledger.carryOut_troubles carried,
      fun h => Nat.lt_of_lt_of_le (below h) later.nextId, fun {a} ha => ?_,
      fun ha hb _ => amends.lacked ha hb⟩, fun id h => ?_⟩
    · have fresh : a ∈ effect.inserted → a.id ∉ effect.deleted := fun new gone =>
        Nat.not_lt.2 (amends.writes new).1 (below gone)
      rw [amends.mem_records, ← deleted, or_and_right]
      exact or_congr_right (and_iff_left_of_imp fresh).symm
    · obtain ⟨fresh, kind, own, -⟩ := amends.writes ha
      exact ⟨fresh, own.trans mine, kind⟩
    · apply deleted.2
      rw [← removals]
      exact Ledger.mem_of_carryOut carried (List.mem_append_right _ h)

abbrev deletedBy (visits : List Visit) : List AbsenceId :=
  visits.flatMap (·.effect.deleted)

abbrev insertedBy (visits : List Visit) : List Absence :=
  visits.flatMap (·.effect.inserted)

/-- What all visits of a scan write. -/
theorem Visits.writes {ledger after : Ledger} {visits : List Visit}
    (run : Visits context scope ledger visits after) (sound : ledger.Sound) :
    Writes scope (deletedBy visits) (insertedBy visits) ledger after ∧
      ∀ id, (removedBy visits).contains id = true ↔ id ∈ deletedBy visits := by
  have removed (id : AbsenceId) : (removedBy visits).contains id = true ↔
      ∃ visit ∈ visits, id ∈ visit.effect.deleted ++ visit.effect.skipped := by
    rw [removedBy, OrderedSet.contains_iff, OrderedSet.mem_ofList, List.mem_flatMap]
  constructor
  · clear removed
    induction run with
    | done => exact .nothing _
    | step first _ ih =>
      exact (first.writes sound).1.trans (ih (first.later sound).sound)
  · intro id
    rw [removed, List.mem_flatMap]
    refine exists_congr fun visit => and_congr_right fun hv => ?_
    obtain ⟨before, between, first, rest, earlier, visited, -⟩ := run.split hv
    rw [List.mem_append]
    exact or_iff_left_of_imp ((visited.writes (earlier.later sound).sound).2 id)

theorem Visits.tagged {ledger after : Ledger} {visits : List Visit}
    (run : Visits context scope ledger visits after) (sound : ledger.Sound) (tagged : ledger.Tagged) :
    after.Tagged := by
  obtain ⟨writes, -⟩ := run.writes sound
  exact tagged.fewer writes.nextId fun id t found => (writes.troubles.1 found).1

/-- No record stands in the end under an identifier that a visit has removed. -/
theorem Visits.removed {ledger after : Ledger} {visits : List Visit}
    (run : Visits context scope ledger visits after) (sound : ledger.Sound) {id : AbsenceId}
    (h : id ∈ deletedBy visits) : after.holds id = false := by
  rw [Ledger.holds, Option.isSome_eq_false_iff, Option.isNone_iff_eq_none]
  apply Option.eq_none_iff_forall_ne_some.2
  intro a found
  have named : a.id = id := (run.later sound).sound.keyed found
  exact ((run.writes sound).1.records.1 (Ledger.mem_records.2 ⟨id, found⟩)).2 (named ▸ h)

/-- A record is still there after the visits unless one has deleted it. -/
theorem Visits.holds_iff {ledger after : Ledger} {visits : List Visit}
    (run : Visits context scope ledger visits after) (sound : ledger.Sound) {a : Absence}
    (ha : a ∈ ledger.records) : after.holds a.id = true ↔ a.id ∉ deletedBy visits := by
  constructor
  · intro held gone
    rw [run.removed sound gone] at held
    cases held
  · intro stays
    exact (run.later sound).sound.holds_of_mem ((run.writes sound).1.records.2 ⟨.inl ha, stays⟩)

end ScanContext

end Entitlement
