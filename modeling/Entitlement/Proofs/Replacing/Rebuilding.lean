import Entitlement.Proofs.Replacing.Convergence

/-!
Building a chain again after its repair. A chain refuses a record that two of its periods replace with, or
that completes two of them; the repair of each period is planned for itself and knows nothing of the others.
So the chain is built again unless one of the records that its repair has written is refused, and that record
is then the error.
-/

namespace Entitlement

namespace Chain

/-- No code that an automatic link replaces with is replaced with by another link, or completes two links. -/
def SoleCodes (links : List Category) : Prop :=
  ∀ c ∈ links, c.automatic = true → ∀ code, c.replaces code = true →
    (links.countP fun c => c.replaces code) ≤ 1 ∧ (links.countP fun c => c.completes code) ≤ 1

/-- Only links that replace with the code of a record replace with it in their periods, and likewise for
completion. -/
theorem countP_links (chain : Chain) (record : Absence) :
    ((chain.periods.countP fun p => p.replaces record) ≤
      chain.links.countP fun c => c.replaces record.code) ∧
    ((chain.periods.countP fun p => p.completes record) ≤
      chain.links.countP fun c => c.completes record.code) := by
  simp only [links, List.countP_map]
  exact ⟨List.countP_mono_left fun p _ h => (Bool.and_eq_true_iff.1 h).2,
    List.countP_mono_left fun p _ h => (Bool.and_eq_true_iff.1 h).2⟩

/-- A record that a repair may touch does not clash where codes are not shared. -/
theorem SoleCodes.not_clashes {chain : Chain} (soleCodes : SoleCodes chain.links) {a : Absence}
    (replaceable : chain.Replaceable a) : clashes chain.periods a = false := by
  obtain ⟨-, p, hp, automatic, replaces⟩ := replaceable
  obtain ⟨once, sole⟩ := soleCodes p.category (List.mem_map_of_mem hp) automatic a.code
    (Bool.and_eq_true_iff.1 replaces).2
  obtain ⟨replacing, completing⟩ := chain.countP_links a
  refine Bool.eq_false_iff.2 fun clash => ?_
  rcases clashes_iff.1 clash with twice | twice
  · exact Nat.not_lt.2 (Nat.le_trans completing sole) twice
  · exact Nat.not_lt.2 (Nat.le_trans replacing once) twice

/-- A chain is filled with records none of which clashes, or refuses one that does. -/
theorem fill_or_clash (rules : RuleTree) (working : WorkingTime) (pivot : Pivot) (laid : Chain)
    (records : List Absence) :
    ((∃ chain, fill rules working pivot laid records = .ok chain) ∧
        ∀ a ∈ concerned laid.periods laid.person records, clashes laid.periods a = false) ∨
      ∃ a ∈ concerned laid.periods laid.person records, clashes laid.periods a = true ∧
        fill rules working pivot laid records = .error (clashError laid.category a) := by
  have outcome := fill_concerned rules working pivot laid records
  cases found : (concerned laid.periods laid.person records).find? (clashes laid.periods) with
  | none =>
    rw [found] at outcome
    exact .inl ⟨⟨_, outcome⟩, fun a ha => Bool.eq_false_iff.2 (List.find?_eq_none.1 found a ha)⟩
  | some a =>
    rw [found] at outcome
    exact .inr ⟨a, List.mem_of_find?_eq_some found, List.find?_some found, outcome⟩

/-- Of the records of a ledger after the repair of a chain, those that the chain refuses are those that the
repair has written and that clash. -/
theorem Amends.refused_iff {chain laid : Chain} {before after : Ledger} {removed : List AbsenceId}
    {inserted : List Absence} (amends : Amends chain before after removed inserted)
    (person : chain.person = laid.person)
    (places : chain.periods.map Period.place = laid.periods.map Period.place)
    (accepted : ∀ a ∈ concerned laid.periods laid.person before.records, clashes laid.periods a = false)
    {a : Absence} : (a ∈ concerned laid.periods laid.person after.records ∧ clashes laid.periods a = true) ↔
      a ∈ inserted ∧ clashes chain.periods a = true := by
  rw [clashes_congr places]
  refine and_congr_left fun clash => ?_
  rw [mem_concerned, amends.mem_records]
  constructor
  · rintro ⟨⟨old, -⟩ | new, mine, concerns⟩
    · rw [accepted a (mem_concerned.2 ⟨old, mine, concerns⟩)] at clash
      cases clash
    · exact new
  · intro new
    refine ⟨.inr new, (amends.writes new).2.2.1.trans person, ?_⟩
    exact List.any_eq_true.1 (concerns_of_clashes clash)

/-- After the repair of a chain was carried out, the chain is built again just if none of the records that the
repair has written is one that two periods of the chain replace with or that completes two of them. Otherwise
the error is that of such a record. Where the links share no codes there is none. -/
theorem rebuilt_unless_clash {rules : RuleTree} {working : WorkingTime} {pivot : Pivot}
    {ledger ledger' : Ledger} (sound : ledger.Sound) {chain : Chain}
    (built : build rules working pivot ledger.records = .ok chain) {repair : Repair}
    {effect : RepairEffect} (planned : chain.repair rules = .ok repair)
    (carried : Ledger.carryOut repair ledger = .ok effect ledger') :
    ((∃ chain', build rules working pivot ledger'.records = .ok chain') ↔
        ∀ a ∈ effect.inserted, clashes chain.periods a = false) ∧
      (∀ error, build rules working pivot ledger'.records = .error error →
        ∃ a ∈ effect.inserted, clashes chain.periods a = true ∧ error = clashError chain.category a) ∧
      (SoleCodes chain.links → ∃ chain', build rules working pivot ledger'.records = .ok chain') := by
  obtain ⟨laid, hlaid, filled⟩ := bind_ok built
  obtain ⟨own, -, fresh⟩ := layOut_fresh hlaid
  obtain ⟨person, places, settled⟩ := fill_settled fresh filled
  have category : chain.category = laid.category := by
    obtain ⟨-, rfl⟩ := fill_ok filled
    rfl
  have amends := amends_of_carryOut sound planned carried (person ▸ settled) (fun _ ha => ha)
    fun _ ha _ _ _ _ => ha
  have refused {a : Absence} := amends.refused_iff (a := a) person places (fill_ok filled).1
  have again : build rules working pivot ledger'.records = fill rules working pivot laid ledger'.records := by
    rw [build, hlaid]
    rfl
  rw [again]
  rcases fill_or_clash rules working pivot laid ledger'.records with ⟨⟨chain', ok⟩, none⟩ | ⟨a, ha, clash, error⟩
  · refine ⟨iff_of_true ⟨chain', ok⟩ fun a ha => ?_, fun error failed => ?_, fun _ => ⟨chain', ok⟩⟩
    · refine Bool.eq_false_iff.2 fun clash => ?_
      obtain ⟨here, clash⟩ := refused.2 ⟨ha, clash⟩
      exact Bool.noConfusion ((none a here).symm.trans clash)
    · cases ok.symm.trans failed
  · obtain ⟨new, clash⟩ := refused.1 ⟨ha, clash⟩
    refine ⟨iff_of_false ?_ fun none => ?_, fun error' failed => ⟨a, new, clash, ?_⟩, fun soleCodes => ?_⟩
    · rintro ⟨chain', ok⟩
      cases ok.symm.trans error
    · exact Bool.noConfusion ((none a new).symm.trans clash)
    · rw [category]
      exact Except.error.inj (failed.symm.trans error)
    · exact Bool.noConfusion ((soleCodes.not_clashes (amends.writes new).2.2).symm.trans clash)

theorem sample_soleCodes : SoleCodes [sampleHourly] := by
  intro c _ _ code _
  exact ⟨List.countP_le_length, List.countP_le_length⟩

/-- A chain of one link is built again after its repair. -/
theorem sample_rebuilt : ∃ chain repair effect after chain',
    build sampleRules .unknown samplePivot sampleLedger.records = .ok chain ∧
      chain.repair sampleRules = .ok repair ∧ Ledger.carryOut repair sampleLedger = .ok effect after ∧
      effect.inserted.length = 1 ∧ build sampleRules .unknown samplePivot after.records = .ok chain' := by
  have run : ((repairedIn sampleRules samplePivot sampleLedger).any fun r =>
      decide (r.1.links = [sampleHourly]) && decide (r.2.2.1.inserted.length = 1)) = true := by cbv
  obtain ⟨⟨chain, repair, effect, after⟩, found, answers⟩ := (Option.any_eq_true _ _).1 run
  simp only [Bool.and_eq_true, decide_eq_true_eq] at answers
  obtain ⟨built, planned, carried⟩ := repairedIn_ok found
  obtain ⟨chain', again⟩ := (rebuilt_unless_clash (Ledger.sound_ofDocument _) built planned carried).2.2
    (answers.1 ▸ sample_soleCodes)
  exact ⟨chain, repair, effect, after, chain', built, planned, carried, answers.2, again⟩

def hourlyOf (name : CategoryName) (code : Code) (next : Option CategoryName) : Category :=
  ⟨name, "", .programmed, .year, none, some ⟨.minutes, .ofList [code], [⟨"09H1", 60⟩]⟩, next, true, false⟩

def sharedRules : RuleTree :=
  .ofLists [hourlyOf "DAY" "09M" (some "NIGHT"), hourlyOf "NIGHT" "10M" none] [⟨"09H1", "", [.nothing]⟩]

def sharedPivot : Pivot :=
  ⟨1, "DAY", .sample 2024 4 1, ⟨[⟨.sample 2020 1 1, none⟩], [], []⟩⟩

def sharedLedger : Ledger :=
  .ofDocument ⟨[⟨⟨1, "09M", .sample 2024 4 1, .specifiedMinutes, some 60, none⟩, 1⟩], [], [], ∅, ∅⟩

/-- The repair of two links that share a code writes a record that the chain then refuses. -/
theorem shared_refused : sharedLedger.Sound ∧ ∃ chain repair effect after,
    build sharedRules .unknown sharedPivot sharedLedger.records = .ok chain ∧
      chain.repair sharedRules = .ok repair ∧ Ledger.carryOut repair sharedLedger = .ok effect after ∧
      build sharedRules .unknown sharedPivot after.records =
        .error ⟨"DAY", .sample 2024 4 1, some 3, .twoPeriods (.sample 2024 4 1)⟩ := by
  have run : ((repairedIn sharedRules sharedPivot sharedLedger).any fun r =>
      match build sharedRules .unknown sharedPivot r.2.2.2.records with
      | .error error => error = ⟨"DAY", .sample 2024 4 1, some 3, .twoPeriods (.sample 2024 4 1)⟩
      | .ok _ => false) = true := by cbv
  obtain ⟨⟨chain, repair, effect, after⟩, found, answers⟩ := (Option.any_eq_true _ _).1 run
  obtain ⟨built, planned, carried⟩ := repairedIn_ok found
  refine ⟨Ledger.sound_ofDocument _, chain, repair, effect, after, built, planned, carried, ?_⟩
  dsimp only at answers
  cases again : build sharedRules .unknown sharedPivot after.records with
  | error error =>
    rw [again] at answers
    rw [of_decide_eq_true answers]
  | ok chain' =>
    rw [again] at answers
    cases answers

end Chain

end Entitlement
