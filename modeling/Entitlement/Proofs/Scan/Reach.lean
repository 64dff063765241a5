import Entitlement.Proofs.Chain.Governing
import Entitlement.Proofs.Chain.IdleYears
import Entitlement.Proofs.Scan.Sites

/-!
The records in the reach of a chain are all it needs. Its periods cover no date outside the reach, and the
earlier records that a carry-over source takes are in it from the first contract on; what lies before every
contract changes nothing where no balance was entered for the source.
-/

namespace Entitlement

namespace Chain

variable {rules : RuleTree} {working : WorkingTime} {pivot : Pivot} {laid : Chain}

/-- A carry-over of a chain is not its own source. -/
theorem carry_ne_source (keyed : rules.Keyed) (h : layOut rules pivot = .ok laid) {p : Period}
    (hp : p ∈ laid.periods) {link : CarryOver} (carries : carryOver? rules p = some link) :
    link.carry.name ≠ link.source.name := by
  obtain ⟨checked, mem⟩ := checked_of_mem h hp
  obtain ⟨source, month, period, known⟩ := carryOver_eq_some carries
  obtain ⟨origin, known', -, -, grants⟩ := checkCarry_ok (check_ok checked period)
  obtain rfl := Option.some.inj (known.symm.trans known')
  have carry : link.carry = p.category := by
    simp only [carryOver?, period, known, Option.bind_some, Option.ite_none_right_eq_some,
      Option.some.injEq] at carries
    exact congrArg CarryOver.carry carries.2.symm
  intro same
  have one := keyed.eq_of_name mem (RuleTree.category?_mem known) (carry ▸ same)
  rw [← one, Category.carrySource?, period] at grants
  cases grants

/-- Records under contracts that have begun decide what is carried over. -/
theorem seedPeriod_begun (keyed : rules.Keyed) (h : layOut rules pivot = .ok laid) {p : Period}
    (hp : p ∈ laid.periods) {records records' : List Absence}
    (bare : ∀ link, carryOver? rules p = some link →
      ∀ i ∈ pivot.profile.initializations, i.category ≠ link.source.name)
    (same : ∀ link, carryOver? rules p = some link →
      (link.history pivot.person pivot.date.year records).filter pivot.profile.begun =
        (link.history pivot.person pivot.date.year records').filter pivot.profile.begun) :
    seedPeriod rules working pivot records p = seedPeriod rules working pivot records' p := by
  unfold seedPeriod
  cases carries : carryOver? rules p with
  | none => rfl
  | some link =>
    have begun (records : List Absence) :
        link.replay working pivot.person pivot.profile pivot.date.year records =
          link.replayOf (working pivot.person) pivot.profile pivot.date.year
            ((link.history pivot.person pivot.date.year records).filter pivot.profile.begun) :=
      CarryOver.replayOf_begun (carry_ne_source keyed h hp carries) (bare link carries) _
        (Absence.inOrder_sorted _) pivot.date.le_lastYear fun a ha => (link.mem_history.1 ha).2.2.1
    simp only [begun records, begun records', same link carries]

/-- Around every pivot and in every ledger, the records in the reach of a chain fill it as all records do, or
fail with the same error, if no balance was entered for a category that it carries over from; records dated
before every contract do not matter. -/
theorem fill_absencesIn {categories : List Category} {codes : List CodeEntry} {working : WorkingTime}
    {pivot : Pivot} {laid : Chain} (hlaid : layOut (.ofLists categories codes) pivot = .ok laid)
    (bare : ∀ p ∈ laid.periods, ∀ link, carryOver? (.ofLists categories codes) p = some link →
      ∀ i ∈ pivot.profile.initializations, i.category ≠ link.source.name)
    {reach : DateRange} (reaches : laid.reach = some reach) (ledger : Ledger) :
    fill (.ofLists categories codes) working pivot laid
        (ledger.absencesIn pivot.person reach.first reach.last) =
      fill (.ofLists categories codes) working pivot laid ledger.records := by
  have keyed := RuleTree.keyed_ofLists categories codes
  generalize RuleTree.ofLists categories codes = rules at hlaid bare keyed ⊢
  have person : laid.person = pivot.person := (layOut_fresh hlaid).1
  have inside {a : Absence} (mine : a.person = pivot.person) (h : (∃ p ∈ laid.periods, a.date ∈ p.range) ∨
      ∃ history, laid.history = some history ∧ a.date ∈ history) :
      (decide (a.person = pivot.person) && decide (reach.first ≤ a.date) &&
        decide (a.date ≤ reach.last)) = true := by
    obtain ⟨_, found, mem⟩ := mem_reach h
    obtain rfl := Option.some.inj (reaches.symm.trans found)
    simp [mine, mem.1, mem.2]
  have concerns : concerned laid.periods laid.person
        (ledger.absencesIn pivot.person reach.first reach.last) =
      concerned laid.periods laid.person ledger.records := by
    refine inOrder_gathered fun a _ passes => ?_
    simp only [Bool.and_eq_true, decide_eq_true_eq, List.any_eq_true] at passes
    obtain ⟨mine, p, hp, concerned⟩ := passes
    rw [Period.concerns_eq, Bool.and_eq_true] at concerned
    exact inside (mine.trans person) (.inl ⟨p, hp, mem_range_of_covers concerned.1⟩)
  have histories (p : Period) (hp : p ∈ laid.periods) (link : CarryOver)
      (carries : carryOver? rules p = some link) :
      (link.history pivot.person pivot.date.year
          (ledger.absencesIn pivot.person reach.first reach.last)).filter pivot.profile.begun =
        (link.history pivot.person pivot.date.year ledger.records).filter pivot.profile.begun := by
    rw [CarryOver.history, CarryOver.history, Absence.inOrder_filter, Absence.inOrder_filter,
      List.filter_filter, List.filter_filter]
    refine inOrder_gathered fun a _ passes => ?_
    simp only [Bool.and_eq_true, decide_eq_true_eq] at passes
    obtain ⟨begun, ⟨mine, before⟩, -⟩ := passes
    obtain ⟨contract, mem, begins⟩ := List.any_eq_true.1 begun
    obtain ⟨history, days, within⟩ :=
      Profile.mem_daysBefore mem (of_decide_eq_true begins) before
    obtain ⟨source, month, period, -⟩ := carryOver_eq_some carries
    refine inside mine (.inr ⟨history, ?_, within⟩)
    rw [layOut_history hlaid, historyOf, if_pos]
    · exact days
    · exact List.any_eq_true.2 ⟨p, hp, by simp [Category.carrySource?, period]⟩
  rw [fill_concerned, fill_concerned, concerns, List.map_congr_left fun p hp =>
    seedPeriod_begun keyed hlaid hp (bare p hp) (histories p hp)]

end Chain

namespace CarryPair

open Chain

def earlyLedger : Ledger :=
  .ofDocument { LedgerDocument.empty with
    absences := ⟨⟨1, "HOL", .sample 2018 3 5, .allDay, none, none⟩, 3⟩ :: sampleRecords }

def newYear : Pivot :=
  ⟨1, "NEW", .sample 2024 1 1, sampleProfile⟩

/-- The record from before the contract is out of reach, and left out without effect. -/
theorem early_record_left_out : ∃ laid reach chain, layOut sampleRules newYear = .ok laid ∧
    laid.reach = some reach ∧ earlyLedger.records.map (·.id) = [1, 2, 3] ∧
    (earlyLedger.absencesIn newYear.person reach.first reach.last).map (·.id) = [1, 2] ∧
    fill sampleRules .unknown newYear laid
      (earlyLedger.absencesIn newYear.person reach.first reach.last) = .ok chain ∧
    fill sampleRules .unknown newYear laid earlyLedger.records = .ok chain := by
  have reaches : ((layOut sampleRules newYear).toOption.any fun laid => laid.reach.any fun reach =>
      decide ((earlyLedger.absencesIn newYear.person reach.first reach.last).map (·.id) = [1, 2]) &&
        (fill sampleRules .unknown newYear laid earlyLedger.records).toOption.isSome) = true := by cbv
  obtain ⟨laid, hlaid, found⟩ := (Option.any_eq_true _ _).1 reaches
  obtain ⟨reach, reaches, found⟩ := (Option.any_eq_true _ _).1 found
  rw [Bool.and_eq_true, decide_eq_true_eq] at found
  obtain ⟨chain, filled⟩ := Option.isSome_iff_exists.1 found.2
  have hlaid := ok_of_toOption hlaid
  have filled := ok_of_toOption filled
  have bare : ∀ p ∈ laid.periods, ∀ link, carryOver? sampleRules p = some link →
      ∀ i ∈ newYear.profile.initializations, i.category ≠ link.source.name :=
    fun p _ link _ i hi => absurd hi List.not_mem_nil
  exact ⟨laid, reach, chain, hlaid, reaches, by cbv, found.1,
    (fill_absencesIn hlaid bare reaches earlyLedger).trans filled, filled⟩

end CarryPair

end Entitlement
