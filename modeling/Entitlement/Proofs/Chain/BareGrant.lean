import Entitlement.Proofs.Chain.ReplayAgreement

/-!
A carry-over of a source that has no earlier records. Nothing is replayed, so the carry-over is granted all
that the source would have given in the year before; a balance that was entered for that year, which the
replay of a single record would have honoured, is passed over.
-/

namespace Entitlement

namespace Chain

theorem CarryOver.replay_of_unrecorded {link : CarryOver} {person : PersonId} {year : Int}
    {records : List Absence} (unrecorded : link.history person year records = []) (working : WorkingTime)
    (profile : Profile) : link.replay working person profile year records =
      (fullGrant link.source (year - 1) profile, []) := by
  unfold replay
  rw [unrecorded]
  show (years year year).foldl _ _ = _
  rw [years_self]
  rfl

/-- Without records of its source before the year, a carry-over whose own balance sets no limit is granted
the full limit of the source, as if no balance had ever been entered. -/
theorem limit_of_unrecorded {rules : RuleTree} {working : WorkingTime} {pivot : Pivot}
    {records : List Absence} {chain : Chain} (built : build rules working pivot records = .ok chain)
    {k : Period} (hk : k ∈ chain.periods) {link : CarryOver} (carries : carryOver? rules k = some link)
    (free : k.initialization.bind (·.limit) = none)
    (unrecorded : ∀ a ∈ records, a.person = pivot.person → link.source.takes a.code = true →
      pivot.date.year ≤ a.date.year) :
    k.limit = CarryOver.fullGrant link.source (pivot.date.year - 1)
      { pivot.profile with initializations := [] } := by
  obtain ⟨laid, -, -, rfl⟩ := build_ok built
  obtain ⟨q, hq, rfl⟩ := List.mem_map.1 hk
  have kept := bringAll_terms (working laid.person) (concerned laid.periods laid.person records)
    (laid.periods.map (seedPeriod rules working pivot records))
  obtain ⟨seeded, hseeded, same⟩ := List.mem_map.1 (kept ▸ List.mem_map_of_mem hq)
  obtain ⟨p, -, rfl⟩ := List.mem_map.1 hseeded
  obtain ⟨category, -, limit, initialization⟩ :=
    Period.terms_eq_iff.1 (same.trans (Period.terms_settle q).symm)
  have place := (Prod.mk.inj (seedPeriod_place rules working pivot records p)).1
  have carries : carryOver? rules p = some link := by
    unfold carryOver? at carries ⊢
    rw [← place, category]
    exact carries
  have none : link.history pivot.person pivot.date.year records = [] :=
    List.eq_nil_iff_forall_not_mem.2 fun a ha => by
      obtain ⟨mem, mine, early, takes⟩ := link.mem_history.1 ha
      exact Int.not_lt.2 (unrecorded a mem mine takes) early
  have seeded : seedPeriod rules working pivot records p =
      p.seed (CarryOver.fullGrant link.source (pivot.date.year - 1) pivot.profile) := by
    simp only [seedPeriod, carries, CarryOver.replay_of_unrecorded none, List.foldl_nil]
  rw [seeded] at limit initialization
  rw [← limit]
  unfold Period.seed at initialization ⊢
  split
  · next set =>
    rw [if_pos set] at initialization
    rw [initialization, free] at set
    cases set
  · rfl

end Chain

namespace CarryPair

def enteredSource : Category :=
  { sampleSource with initializable := true }

def enteredRules : RuleTree :=
  .ofLists [sampleCarry, enteredSource] []

/-- Four of the ten days were taken before anything was recorded. -/
def enteredProfile : Profile :=
  { sampleProfile with initializations := [⟨"NEW", .sample 2023 6 1, 400, 0, none⟩] }

def enteredChain (date : Date) : Option Chain :=
  (Chain.build enteredRules .unknown ⟨1, "NEW", date, enteredProfile⟩ []).toOption

/-- The source has six days left at the end of the year, and the carry-over is granted all ten. -/
theorem entered_balance_lost : ∃ chainP chainQ k s,
    Chain.build enteredRules .unknown ⟨1, "NEW", .sample 2023 12 31, enteredProfile⟩ [] = .ok chainP ∧
    Chain.build enteredRules .unknown ⟨1, "NEW", .sample 2024 1 1, enteredProfile⟩ [] = .ok chainQ ∧
    chainP.periods.find? (fun s => s.name = "NEW") = some s ∧ s.remaining = some 600 ∧
    k ∈ chainQ.periods ∧ k.name = "OLD" ∧ k.initialization = none ∧ k.limit = 1000 := by
  have before : ((enteredChain (.sample 2023 12 31)).any fun chain =>
      (chain.periods.find? fun s => s.name = "NEW").any fun s => decide (s.remaining = some 600)) =
        true := by cbv
  have behind : ((enteredChain (.sample 2024 1 1)).any fun chain => chain.periods.any fun k =>
      decide (k.name = "OLD" ∧ k.initialization = none ∧ k.limit = 1000)) = true := by cbv
  obtain ⟨chainP, builtP, found⟩ := (Option.any_eq_true _ _).1 before
  obtain ⟨s, hs, left⟩ := (Option.any_eq_true _ _).1 found
  obtain ⟨chainQ, builtQ, found⟩ := (Option.any_eq_true _ _).1 behind
  obtain ⟨k, hk, granted⟩ := List.any_eq_true.1 found
  exact ⟨chainP, chainQ, k, s, Chain.ok_of_toOption builtP, Chain.ok_of_toOption builtQ, hs,
    of_decide_eq_true left, hk, of_decide_eq_true granted⟩

/-- Nothing was recorded, so all ten days of the year before are granted. -/
theorem whole_year_granted : ∃ chain k,
    Chain.build enteredRules .unknown ⟨1, "NEW", .sample 2024 1 1, enteredProfile⟩ [] = .ok chain ∧
      k ∈ chain.periods ∧ k.limit = Chain.CarryOver.fullGrant enteredSource 2023 sampleProfile := by
  have behind : ((enteredChain (.sample 2024 1 1)).any fun chain => chain.periods.any fun k =>
      decide (k.category = sampleCarry ∧ k.initialization = none)) = true := by cbv
  obtain ⟨chain, built, found⟩ := (Option.any_eq_true _ _).1 behind
  have built := Chain.ok_of_toOption built
  obtain ⟨k, hk, found⟩ := List.any_eq_true.1 found
  obtain ⟨category, free⟩ := of_decide_eq_true found
  have known : enteredRules.category? "NEW" = some enteredSource := by cbv
  have carries : Chain.carryOver? enteredRules k = some (link sampleCarry enteredSource 3) := by
    unfold Chain.carryOver?
    rw [category]
    show (enteredRules.category? "NEW").bind _ = _
    rw [known]
    rfl
  have granted := Chain.limit_of_unrecorded built hk carries (by rw [free]; rfl)
    fun a ha => absurd ha List.not_mem_nil
  exact ⟨chain, k, built, hk, granted⟩

end CarryPair

end Entitlement
