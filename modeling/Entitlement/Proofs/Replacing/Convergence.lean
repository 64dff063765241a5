import Entitlement.Proofs.Replacing.Carrying

/-!
A repair converges in one step. Built again from the ledger that a repair leaves behind, a chain with
separate replacing codes has the limits, totals, findings, compromises and residuals it had, and
nothing is left to repair in it: each automatic period is replaced in exactly where a code is required.
-/

namespace Entitlement

namespace Chain

def standing (chain : Chain) :
    List (CategoryName × Amount × Amount × Option Date × Option Amount) :=
  chain.periods.map fun p => (p.name, p.limit, p.taken, p.compromisedFrom, p.finalResidual)

theorem Renewed.standing_eq {person : PersonId} {records : List Absence} {old new : Period}
    (h : Renewed person records old new) :
    (old.name, old.limit, old.taken, old.compromisedFrom, old.finalResidual) =
      (new.name, new.limit, new.taken, new.compromisedFrom, new.finalResidual) := by
  obtain ⟨category, -, limit, -⟩ := Period.terms_eq_iff.1 h.terms
  rw [Period.name, Period.name, category, limit, h.taken, h.compromisedFrom, h.finalResidual]

/-- Repair converges in one step. After the repair of a chain with separate replacing codes was carried
out, the chain is built again: it is planned no repair, stands and finds as before, and on every date
that an automatic period judges, the person's replacing records there all have the required code, and
one exists exactly if a code is required. -/
theorem repair_converges {rules : RuleTree} {working : WorkingTime} {pivot : Pivot}
    {ledger ledger' : Ledger} (sound : ledger.Sound) {chain : Chain}
    (built : build rules working pivot ledger.records = .ok chain)
    (separate : Separate rules chain.links) {repair : Repair} {effect : RepairEffect}
    (planned : chain.repair rules = .ok repair)
    (carried : Ledger.carryOut repair ledger = .ok effect ledger') :
    ∃ chain', build rules working pivot ledger'.records = .ok chain' ∧
      chain'.repair rules = .ok ⟨pivot.person, [], []⟩ ∧
      chain'.standing = chain.standing ∧ chain'.findings = chain.findings ∧
      ∀ s ∈ chain'.periods, s.category.automatic = true → ∀ d ∈ s.range, s.isPrior d = false →
        s.isCompromisedOn d = false →
          (∀ a ∈ ledger'.records, a.person = pivot.person → a.date = d →
            s.category.replaces a.code = true → (s.dayAt d).isRequired a.code = true) ∧
          ((s.dayAt d).required.isSome = true ↔ ∃ a ∈ ledger'.records,
            a.person = pivot.person ∧ a.date = d ∧ s.category.replaces a.code = true) := by
  obtain ⟨laid, hlaid, filled⟩ := bind_ok built
  obtain ⟨own, -, fresh⟩ := layOut_fresh hlaid
  obtain ⟨person, -, settled⟩ := fill_settled fresh filled
  obtain ⟨plans, -, done⟩ := carriedOut_of_ledger sound planned carried
  rw [← person] at settled
  have amends := amends_of_carryOut sound planned carried settled (fun _ ha => ha)
    fun _ ha _ _ _ _ => ha
  obtain ⟨chain', built', empty, findings, renewed⟩ :=
    fill_repaired fresh filled separate plans done amends.plain
  rw [person, own] at empty renewed
  refine ⟨chain', ?_, empty, ?_, findings, ?_⟩
  · rw [build, hlaid]
    exact built'
  · exact (forall₂_map_eq.1 (renewed.imp fun _ _ h => h.standing_eq)).symm
  · intro s hs automatic d inside late uncompromised
    obtain ⟨old, -, renewed⟩ := forall₂_mem_right renewed hs
    obtain ⟨coded, stands⟩ := renewed.required automatic d late uncompromised
    have covered : s.covers d = true := DateRange.contains_iff.2 inside
    have replaces {a : Absence} (date : a.date = d) :
        s.replaces a = s.category.replaces a.code := by
      rw [Period.replaces, date, covered, Bool.true_and]
    refine ⟨fun a ha mine date code => ?_, stands.trans ?_⟩
    · exact coded a (mem_replacingOn.2 ⟨ha, mine, (replaces date).trans code, date.symm⟩)
    · constructor
      · intro nonempty
        obtain ⟨a, ha⟩ := List.exists_mem_of_ne_nil _ nonempty
        obtain ⟨mem, mine, inS, date⟩ := mem_replacingOn.1 ha
        exact ⟨a, mem, mine, date.symm, (replaces date.symm).symm.trans inS⟩
      · rintro ⟨a, ha, mine, date, code⟩
        exact List.ne_nil_of_mem
          (mem_replacingOn.2 ⟨ha, mine, (replaces date).trans code, date.symm⟩)

def sampleHourly : Category :=
  ⟨"HOURLY", "", .programmed, .always, none,
    some ⟨.minutes, .ofList ["09M"], [⟨"09H1", 60⟩, ⟨"09H2", 120⟩]⟩, none, true, false⟩

def sampleRules : RuleTree :=
  .ofLists [sampleHourly] [⟨"09H1", "", [.nothing]⟩, ⟨"09H2", "", [.nothing]⟩]

def samplePivot : Pivot :=
  ⟨1, "HOURLY", .sample 2024 4 1, ⟨[⟨.sample 2020 1 1, none⟩], [], []⟩⟩

def sampleLedger : Ledger :=
  .ofDocument ⟨[⟨⟨1, "09M", .sample 2024 4 1, .specifiedMinutes, some 130, none⟩, 1⟩,
    ⟨⟨1, "09H1", .sample 2024 4 1, .nothing, none, none⟩, 2⟩], [], [], ∅, ∅⟩

def repairedIn (rules : RuleTree) (pivot : Pivot) (ledger : Ledger) :
    Option (Chain × Repair × RepairEffect × Ledger) := do
  let chain ← (build rules .unknown pivot ledger.records).toOption
  let repair ← (chain.repair rules).toOption
  match Ledger.carryOut repair ledger with
  | .ok effect after => some (chain, repair, effect, after)
  | _ => none

theorem repairedIn_ok {rules : RuleTree} {pivot : Pivot} {ledger after : Ledger} {chain : Chain}
    {repair : Repair} {effect : RepairEffect}
    (h : repairedIn rules pivot ledger = some (chain, repair, effect, after)) :
    build rules .unknown pivot ledger.records = .ok chain ∧ chain.repair rules = .ok repair ∧
      Ledger.carryOut repair ledger = .ok effect after := by
  simp only [repairedIn, Option.bind_eq_bind, Option.bind_eq_some_iff] at h
  obtain ⟨chain', built, repair', planned, h⟩ := h
  cases carried : Ledger.carryOut repair' ledger with
  | error error between => simp [carried] at h
  | exhausted => simp [carried] at h
  | ok effect' between =>
    rw [carried] at h
    cases h
    exact ⟨ok_of_toOption built, ok_of_toOption planned, carried⟩

theorem sample_separate : Separate sampleRules [sampleHourly] where
  once := List.pairwise_singleton _ _
  apart {c code} hc replaces c' hc' := by
    rw [List.mem_singleton.1 hc] at replaces
    rw [List.mem_singleton.1 hc']
    have codes : "09H1" = code ∨ "09H2" = code := by
      simpa [sampleHourly, Category.replaces, Completion.isReplacing] using replaces
    rcases codes with rfl | rfl
    · exact ⟨by cbv, by cbv⟩
    · exact ⟨by cbv, by cbv⟩
  uncarried {c code} hc replaces c' hc' source month origin period := by
    rw [List.mem_singleton.1 hc'] at period
    cases period

/-- The wrong record of the sample gives way to one of two hours, and then nothing is left to repair. -/
theorem sample_converges : ∃ chain repair effect ledger chain',
    build sampleRules .unknown samplePivot sampleLedger.records = .ok chain ∧
      chain.repair sampleRules = .ok repair ∧ repair.isEmpty = false ∧
      Ledger.carryOut repair sampleLedger = .ok effect ledger ∧
      build sampleRules .unknown samplePivot ledger.records = .ok chain' ∧
      chain'.repair sampleRules = .ok ⟨1, [], []⟩ ∧ chain'.standing = chain.standing := by
  have run : ((repairedIn sampleRules samplePivot sampleLedger).any fun r =>
      decide (r.1.links = [sampleHourly]) && !r.2.1.isEmpty) = true := by cbv
  obtain ⟨⟨chain, repair, effect, ledger⟩, found, answers⟩ := (Option.any_eq_true _ _).1 run
  simp only [Bool.and_eq_true, decide_eq_true_eq, Bool.not_eq_true'] at answers
  obtain ⟨built, planned, carried⟩ := repairedIn_ok found
  obtain ⟨chain', built', empty, standing, -⟩ := repair_converges
    (Ledger.sound_ofDocument _) built (answers.1 ▸ sample_separate) planned carried
  exact ⟨chain, repair, effect, ledger, chain', built, planned, answers.2, carried, built', empty, standing⟩

end Chain

end Entitlement
