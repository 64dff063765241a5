import Entitlement.Proofs.Chain.Gains
import Entitlement.Proofs.Chain.Governing
import Entitlement.Proofs.Chain.ReplayAgreement
import Entitlement.Proofs.Chain.Uniform

/-!
Chains around other dates. If the categories on the walk of a chain divide time alike, whatever else the
rules hold, then every date that a period of the chain covers has this same chain; so it does not matter
which of the records that take part was the pivot.
-/

namespace Entitlement

namespace Chain

open DateRange

def Involves (chain : Chain) (record : Absence) : Prop :=
  record.person = chain.person ∧ ∃ p ∈ chain.periods, p.concerns record = true

variable {rules : RuleTree} {working : WorkingTime} {pivot : Pivot} {records : List Absence}

section Alike

variable {start : Category} (known : rules.category? pivot.category = some start)
  (disjoint : pivot.profile.Disjoint) {grid : PeriodRule}
  (alike : ∀ c ∈ RuleTree.upTo pivot.category false (rules.pathFrom (rules.head start)).categories,
    c.period.grid = grid)

include known disjoint alike

/-- Around every date that a period covers the same chain is laid out, and with a carry-over in it all these
dates lie in one year. -/
theorem layOut_redated {laid : Chain} (h : layOut rules pivot = .ok laid) {p : Period}
    (hp : p ∈ laid.periods) {d : Date} (hd : d ∈ p.range) :
    layOut rules (pivot.moved pivot.category d) = .ok (laid.moved pivot.category d) ∧
      ∀ q ∈ laid.periods, q.category.carrySource?.isSome = true → d.year = pivot.date.year := by
  obtain ⟨start', contract, periods, known', on, follows, rfl⟩ := layOut_filled h (List.ne_nil_of_mem hp)
  obtain rfl := Option.some.inj (known.symm.trans known')
  have walked {q : Period} (hq : q ∈ periods) : q.category.period.grid = grid ∧
      ∃ natural, rangeAround pivot contract q.category = .ok (some natural) ∧
        natural.intersect contract.range = some q.range := by
    rw [(layPeriods_taken follows).periods] at hq
    obtain ⟨c, hc, found⟩ := List.mem_filterMap.1 hq
    obtain ⟨rfl, spans⟩ := periodOf?_eq_some found
    exact ⟨alike _ hc, spans⟩
  obtain ⟨same, natural, around, clipped⟩ := walked hp
  obtain ⟨inside, under⟩ := (mem_of_intersect clipped d).1 hd
  have year : ∀ q ∈ periods, q.category.carrySource?.isSome = true → d.year = pivot.date.year := by
    intro q hq carries
    apply year_of_rangeAround around inside
    rw [same, ← (walked hq).1, Category.grid_of_carries carries]
  have known : rules.category? (pivot.moved pivot.category d).category = some start := known
  have covered : (pivot.moved pivot.category d).profile.contractOn? d = some contract :=
    disjoint.contractOn? on (Contract.contains_iff.2 under)
  have named : (pivot.moved pivot.category d).category = pivot.category := rfl
  have follows' := (layPeriods_congr named rfl fun c hc =>
    rangeAround_moved around inside ((alike c hc).trans same.symm) pivot.category).trans follows
  refine ⟨?_, year⟩
  rw [layOut_of known covered follows', historyOf_moved year pivot.category]
  rfl

/-- Around every date that a period covers the same chain is built. -/
theorem build_redated {chain : Chain} (h : build rules working pivot records = .ok chain) {p : Period}
    (hp : p ∈ chain.periods) {d : Date} (hd : d ∈ p.range) :
    build rules working { pivot with date := d } records = .ok { chain with date := d } := by
  obtain ⟨laid, hlaid, h⟩ := bind_ok h
  obtain ⟨q, hq, place⟩ := mem_of_places (fill_keeps h).2.2 hp
  obtain ⟨-, range⟩ := Prod.mk.inj place
  obtain ⟨redated, year⟩ := layOut_redated known disjoint alike hlaid hq (range ▸ hd)
  have category : chain.category = pivot.category := by
    obtain ⟨-, rfl⟩ := fill_ok h
    exact (category_layOut hlaid :)
  have moved : { chain with date := d } = chain.moved pivot.category d := by
    rw [Chain.moved, ← category]
  rw [moved]
  apply ok_of_toOption
  calc (build rules working (pivot.moved pivot.category d) records).toOption
    _ = (fill rules working (pivot.moved pivot.category d) (laid.moved pivot.category d)
          records).toOption := by
      rw [build, redated]
      rfl
    _ = some (chain.moved pivot.category d) := by
      rw [fill_moved_of_year working year, h]
      rfl

end Alike

/-- In a chain whose categories divide time alike the pivot is irrelevant: whichever of the records that take
part is put in its place, the same chain is built. -/
theorem build_around_participant (categories : List Category) (codes : List CodeEntry)
    (working : WorkingTime) {pivot : Pivot} (disjoint : pivot.profile.Disjoint) {start : Category}
    (known : (RuleTree.ofLists categories codes).category? pivot.category = some start)
    {grid : PeriodRule}
    (alike : ∀ c ∈ (RuleTree.ofLists categories codes).governing start, c.period.grid = grid)
    {records : List Absence} {chain : Chain}
    (h : build (.ofLists categories codes) working pivot records = .ok chain) :
    (∀ id, id ∈ chain.participants ↔ ∃ a ∈ records, a.id = id ∧ chain.Involves a) ∧
      ∀ a ∈ records, chain.Involves a →
        build (.ofLists categories codes) working { pivot with date := a.date } records =
          .ok { chain with date := a.date } := by
  have named : start.name = pivot.category := RuleTree.keyed_ofLists categories codes _ _ known
  obtain ⟨laid, hlaid, filled⟩ := bind_ok h
  obtain ⟨person, -, places⟩ := fill_keeps filled
  constructor
  · intro id
    simp only [mem_participants_fill hlaid filled, Involves, person]
    have same (a : Absence) : (∃ p ∈ laid.periods, p.concerns a = true) ↔
        ∃ p ∈ chain.periods, p.concerns a = true := by
      rw [← List.any_eq_true, ← List.any_eq_true, any_concerns_congr places]
    simp only [same]
  · rintro a ha ⟨-, p, hp, concerns⟩
    rw [RuleTree.governing, named] at alike
    have covered : a.date ∈ p.range := by
      rw [Period.concerns_eq, Bool.and_eq_true] at concerns
      exact DateRange.contains_iff.1 concerns.1
    exact build_redated known disjoint alike h hp covered

end Chain

namespace CarryPair

open Chain

theorem sample_disjoint : sampleProfile.Disjoint := by
  intro a ha b hb _ _ _
  rw [List.mem_singleton.1 ha, List.mem_singleton.1 hb]

/-- Both categories of the sample go by years. -/
theorem sample_alike (c : Category) (hc : c ∈ sampleRules.governing sampleSource) :
    c.period.grid = .year := by
  have walk : (sampleRules.governing sampleSource).map (·.period.grid) = [.year, .year] := by cbv
  have mem := List.mem_map_of_mem (f := (·.period.grid)) hc
  rw [walk] at mem
  simpa using mem

/-- The day of May lies behind the window of the carry-over, and the chain around it is that of February. -/
theorem may_has_chain_of_february : ∃ chain,
    build sampleRules .unknown ⟨1, "NEW", .sample 2023 2 1, sampleProfile⟩ sampleRecords = .ok chain ∧
      chain.participants.toList = [1, 2] ∧
      build sampleRules .unknown ⟨1, "NEW", .sample 2023 5 2, sampleProfile⟩ sampleRecords =
        .ok { chain with date := .sample 2023 5 2 } := by
  have built : ((sampleChain (.sample 2023 2 1)).any fun chain =>
      decide (chain.participants.toList = [1, 2])) = true := by cbv
  obtain ⟨chain, h, ids⟩ := (Option.any_eq_true _ _).1 built
  have h := ok_of_toOption h
  have ids := of_decide_eq_true ids
  have known : sampleRules.category? (Pivot.mk 1 "NEW" (.sample 2023 2 1) sampleProfile).category =
      some sampleSource := samplePair.source_known
  obtain ⟨takePart, around⟩ := build_around_participant [sampleCarry, sampleSource] [] .unknown
    sample_disjoint known sample_alike h
  obtain ⟨a, ha, second, involved⟩ := (takePart 2).1 (by rw [OrderedSet.mem_def, ids]; decide)
  have date : a.date = .sample 2023 5 2 := by
    rcases List.mem_pair.1 ha with rfl | rfl
    · cases second
    · rfl
  exact ⟨chain, h, ids, date ▸ around a ha involved⟩

end CarryPair

end Entitlement
