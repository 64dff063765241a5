import Entitlement.Proofs.Chain.Compromise
import Entitlement.Proofs.Chain.Lossless
import Entitlement.Proofs.Replacing.Convergence
import Entitlement.Proofs.Rule.Walks

/-!
Which days a repair leaves alone. It removes and writes records only on open dates of automatic periods: inside
the range, not before the initialization, and before the earliest critical error. Within a period the plan goes by
date, with one record written a day at most, and no record is removed twice.
-/

namespace Entitlement

structure Period.Open (s : Period) (d : Date) : Prop where
  automatic : s.category.automatic = true
  inside : d ∈ s.range
  begun {i : Initialization} : s.initialization = some i → i.date ≤ d
  sound {start : Date} : s.compromisedFrom = some start → d < start

/-- The settled days that a repair judges lie on open dates. -/
theorem Period.Tidy.open_settle {p : Period} (tidy : p.Tidy) (automatic : p.category.automatic = true)
    {code : Code} (replaces : p.category.replaces code = true) {d : Date} {day : PeriodDay}
    (hd : p.settle.day? d = some day) (late : day.beforeInitialization = false)
    (sound : day.compromised = false) : p.settle.Open d := by
  obtain ⟨category, range, -, initialization⟩ := terms_eq_iff.1 (terms_settle p)
  obtain ⟨completion, asks, -⟩ := (Option.any_eq_true _ _).1 replaces
  obtain ⟨old, stands⟩ := Option.ne_none_iff_exists'.1
    (mt settle_day?_eq_none.2 (hd ▸ Option.some_ne_none day))
  have verdict := settle_day tidy asks hd
  have prior : p.isPrior d = false := by
    rw [← late, verdict.same.beforeInitialization, tidy.bare]
    rfl
  -- Settling marks every day from the compromise on that is not prior, and this one has no mark.
  have uncompromised : p.isCompromisedOn d = false := by
    have mark := verdict.compromised
    rw [sound, prior] at mark
    exact mark.symm
  refine ⟨category ▸ automatic, range ▸ tidy.within stands, fun {i} begins => ?_, fun {start} marked => ?_⟩
  · rw [initialization] at begins
    rw [isPrior, begins] at prior
    exact of_decide_eq_false prior
  · rw [settle_compromisedFrom] at marked
    rw [isCompromisedOn, marked] at uncompromised
    exact Date.lt_of_not_le (of_decide_eq_false uncompromised)

namespace Chain

variable {rules : RuleTree} {working : WorkingTime} {pivot : Pivot} {laid chain : Chain}
  {records : List Absence}

/-- No two periods of a layout have the same name. -/
theorem layOut_names (hlaid : layOut rules pivot = .ok laid) : (laid.periods.map (·.name)).Nodup := by
  by_cases empty : laid.periods = []
  · rw [empty]
    exact List.nodup_nil
  · obtain ⟨start, contract, periods, -, -, laid, rfl⟩ := layOut_filled hlaid empty
    have walk : ((rules.pathFrom (rules.head start)).categories.map (·.name)).Nodup :=
      RuleTree.follow_nodup List.mem_cons_self
    have names := (layPeriods_sublist laid).map (·.name)
    rw [List.map_map] at names
    exact walk.sublist names

theorem fill_names (hlaid : layOut rules pivot = .ok laid)
    (h : fill rules working pivot laid records = .ok chain) : (chain.periods.map (·.name)).Nodup := by
  have names := congrArg (List.map fun place => place.1.name) (fill_keeps h).2.2
  rw [List.map_map, List.map_map] at names
  exact names ▸ layOut_names hlaid

/-- A day of a repair that is judged is open, and the day of its period at its date. -/
theorem open_of_repairDays (hlaid : layOut rules pivot = .ok laid)
    (h : fill rules working pivot laid records = .ok chain) {s : Period} {day : PeriodDay}
    (hday : (s, day) ∈ chain.repairDays) (late : day.beforeInitialization = false) {code : Code}
    (replaces : s.category.replaces code = true) :
    s.day? day.date = some day ∧ s.Open day.date := by
  obtain ⟨hs, automatic, ⟨d, hd⟩, sound⟩ := mem_repairDays.1 hday
  obtain rfl := ((fill_settled (layOut_fresh hlaid).2.2 h).2.2 s hs).date hd
  refine ⟨hd, ?_⟩
  obtain ⟨-, rfl⟩ := fill_ok h
  obtain ⟨q, hq, rfl⟩ := List.mem_map.1 hs
  rw [(Period.terms_eq_iff.1 (Period.terms_settle q)).1] at automatic replaces
  exact (tidy_bringAll hlaid (working laid.person) _ hq).open_settle automatic replaces hd late sound

def removalOf (name : CategoryName) (a : Absence) : Removal :=
  ⟨name, a.id, a.code, a.date⟩

/-- A fold that appends at each step some of the candidates of an element appends some of all candidates. -/
private theorem foldl_appends {α β : Type} {step : List β → α → List β} {candidates : α → List β}
    (h : ∀ planned a, ∃ kept, kept.Sublist (candidates a) ∧ step planned a = planned ++ kept) (l : List α)
    (planned : List β) :
    ∃ kept, kept.Sublist (l.flatMap candidates) ∧ l.foldl step planned = planned ++ kept := by
  induction l generalizing planned with
  | nil => exact ⟨[], List.Sublist.refl _, (List.append_nil planned).symm⟩
  | cons a rest ih =>
    obtain ⟨first, some, here⟩ := h planned a
    obtain ⟨later, others, there⟩ := ih (planned ++ first)
    refine ⟨first ++ later, some.append others, ?_⟩
    rw [List.foldl_cons, here, there, List.append_assoc]

/-- The removals follow the days of the repair and the wrong records on them; a record met again is skipped. -/
theorem removals_sublist (chain : Chain) : chain.removals.Sublist
    (chain.repairDays.flatMap fun e => e.2.wrongReplacings.map (removalOf e.1.name)) := by
  have record (name : CategoryName) (planned : List Removal) (a : Absence) :
      ∃ kept, kept.Sublist [removalOf name a] ∧ addRemoval name planned a = planned ++ kept := by
    unfold addRemoval
    split
    · exact ⟨[], List.nil_sublist _, (List.append_nil planned).symm⟩
    · exact ⟨[removalOf name a], List.Sublist.refl _, rfl⟩
  obtain ⟨kept, some, removals⟩ := foldl_appends
    (fun planned e => foldl_appends (record e.1.name) e.2.wrongReplacings planned) chain.repairDays []
  rw [show chain.removals = kept from removals]
  simpa only [List.map_eq_flatMap] using some

theorem mem_removal {r : Removal} (h : r ∈ chain.removals) : ∃ s day, (s, day) ∈ chain.repairDays ∧
    ∃ a ∈ day.wrongReplacings, r = removalOf s.name a := by
  obtain ⟨⟨s, day⟩, hday, hr⟩ := List.mem_flatMap.1 (chain.removals_sublist.subset h)
  obtain ⟨a, ha, rfl⟩ := List.mem_map.1 hr
  exact ⟨s, day, hday, a, ha, rfl⟩

theorem mem_wrongReplacings {day : PeriodDay} {a : Absence} : a ∈ day.wrongReplacings ↔
    day.beforeInitialization = false ∧ a ∈ day.replacings ∧ day.isRequired a.code = false := by
  unfold PeriodDay.wrongReplacings
  split
  · next prior => simp [prior]
  · next late => simp [late]

/-- The days that a repair may touch in one period go by date. -/
theorem repairDays_ascend (hlaid : layOut rules pivot = .ok laid)
    (h : fill rules working pivot laid records = .ok chain) :
    chain.repairDays.Pairwise fun e e' => e.1.name = e'.1.name → e.2.date < e'.2.date := by
  refine repairDays_apart (fill_settled (layOut_fresh hlaid).2.2 h).2.2 (fun _ _ _ before _ => before) ?_
  exact (List.pairwise_map.1 (fill_names hlaid h)).imp fun apart _ _ same => absurd same apart

theorem addition?_category {period : Period} {day : PeriodDay} {addition : Addition}
    (h : addition? rules period day = .ok (some addition)) : addition.category = period.name := by
  unfold addition? at h
  split at h
  · cases h
  · split at h
    · obtain ⟨kind, -, h⟩ := bind_ok h
      cases h
      rfl
    · cases h

/-- What a repair may do to a chain that was filled with records. A removed record of the person stands on an
open date under a code that replaces in the period and is not the one required there; a written one gets the
required code, of which no record stands on its date. The plan of a period goes by date, one addition a day at
most, and removes no record twice. -/
structure Protected (chain : Chain) (records : List Absence) (repair : Repair) : Prop where
  removal {r : Removal} : r ∈ repair.removals → ∃ s ∈ chain.periods, ∃ a ∈ records,
    r = removalOf s.name a ∧ a.person = chain.person ∧ s.Open r.date ∧
      s.category.replaces r.code = true ∧ (s.dayAt r.date).isRequired r.code = false
  addition {x : Addition} : x ∈ repair.additions → ∃ s ∈ chain.periods, x.category = s.name ∧
    s.Open x.date ∧ s.category.replaces x.code = true ∧ (s.dayAt x.date).isRequired x.code = true ∧
      ∀ a ∈ records, a.person = chain.person → a.date = x.date → a.code ≠ x.code
  once : (repair.removals.map (·.absence)).Nodup
  removalsAscend : repair.removals.Pairwise fun r r' => r.category = r'.category → r.date ≤ r'.date
  additionsAscend : repair.additions.Pairwise fun x y => x.category = y.category → x.date < y.date

/-- A removed record stood on an open date that requires another code. -/
theorem removal_open (hlaid : layOut rules pivot = .ok laid)
    (h : fill rules working pivot laid records = .ok chain) {s : Period} {day : PeriodDay}
    (hday : (s, day) ∈ chain.repairDays) {a : Absence} (wrong : a ∈ day.wrongReplacings) :
    a ∈ records ∧ a.person = chain.person ∧ a.date = day.date ∧ s.Open a.date ∧
      s.category.replaces a.code = true ∧ (s.dayAt a.date).isRequired a.code = false := by
  obtain ⟨person, -, settled⟩ := fill_settled (layOut_fresh hlaid).2.2 h
  obtain ⟨hs, -, ⟨d, hd⟩, -⟩ := mem_repairDays.1 hday
  obtain ⟨late, stands, unrequired⟩ := mem_wrongReplacings.1 wrong
  obtain ⟨mem, mine, replaces, on⟩ := mem_replacingOn.1 (((settled s hs).lists hd a).1 stands)
  obtain rfl := (settled s hs).date hd
  have replaces := (Bool.and_eq_true_iff.1 replaces).2
  obtain ⟨-, opened⟩ := open_of_repairDays hlaid h hday late replaces
  refine ⟨mem, mine.trans person.symm, on.symm, on ▸ opened, replaces, ?_⟩
  rw [← on, Period.dayAt_of_day? hd, unrequired]

/-- An added record goes to an open date on which no record of its code stands. -/
theorem addition_open (hlaid : layOut rules pivot = .ok laid)
    (h : fill rules working pivot laid records = .ok chain) {catalog : RuleTree} {s : Period}
    {day : PeriodDay} (hday : (s, day) ∈ chain.repairDays) {x : Addition}
    (made : addition? catalog s day = .ok (some x)) :
    x.date = day.date ∧ s.Open x.date ∧ s.category.replaces x.code = true ∧
      (s.dayAt x.date).isRequired x.code = true ∧
      ∀ a ∈ records, a.person = chain.person → a.date = x.date → a.code ≠ x.code := by
  obtain ⟨person, -, settled⟩ := fill_settled (layOut_fresh hlaid).2.2 h
  obtain ⟨hs, -, ⟨d, hd⟩, -⟩ := mem_repairDays.1 hday
  obtain ⟨r, asked, lacks, dated, coded⟩ := addition?_ok made
  have replaces := (settled s hs).required hd asked
  simp only [PeriodDay.lacksReplacing, asked, Option.any_some, Bool.and_eq_true,
    Bool.not_eq_true'] at lacks
  obtain ⟨⟨-, late⟩, missing⟩ := lacks
  obtain ⟨here, opened⟩ := open_of_repairDays hlaid h hday late replaces
  refine ⟨dated, dated ▸ opened, coded ▸ replaces, ?_, fun a ha mine on code => ?_⟩
  · rw [dated, Period.dayAt_of_day? here, PeriodDay.isRequired, asked]
    simpa using coded.symm
  · have inS : s.replaces a = true := by
      rw [Period.replaces, on, dated, code, coded, replaces, Bool.and_true]
      exact DateRange.contains_iff.2 opened.inside
    have stands := ((settled s hs).lists here a).2
      (mem_replacingOn.2 ⟨ha, mine.trans person, inS, (on.trans dated).symm⟩)
    exact absurd (decide_eq_true (code.trans coded)) (List.any_eq_false.1 missing a stands)

/-- A repair of a filled chain leaves all protected days alone. The periods have different names, so the name in
an entry of the plan tells its period, and each is compromised from its earliest critical error on, those of
the replay of a carry-over included. -/
theorem repair_protected (hlaid : layOut rules pivot = .ok laid)
    (h : fill rules working pivot laid records = .ok chain) {catalog : RuleTree} {repair : Repair}
    (plan : chain.repair catalog = .ok repair) :
    (chain.periods.map (·.name)).Nodup ∧ Protected chain records repair ∧ ∀ s ∈ chain.periods,
      Earliest s.findings.critical s.compromisedFrom ∧
        ∀ link, carryOver? rules s = some link →
          ∀ e ∈ (link.replay working pivot.person pivot.profile pivot.date.year records).2,
            e ∈ s.findings.critical := by
  obtain ⟨additions, removals, -⟩ := repair_ok plan
  refine ⟨fill_names hlaid h, ⟨fun {r} hr => ?_, fun {x} hx => ?_, ?_, ?_, ?_⟩,
    fun s hs => fill_compromises hlaid h hs⟩
  · obtain ⟨s, day, hday, a, wrong, rfl⟩ := mem_removal (removals ▸ hr)
    obtain ⟨mem, mine, -, opened, replaces, unrequired⟩ := removal_open hlaid h hday wrong
    exact ⟨s, (mem_repairDays.1 hday).1, a, mem, rfl, mine, opened, replaces, unrequired⟩
  · obtain ⟨⟨s, day⟩, hday, made⟩ := (mem_additions additions).1 hx
    obtain ⟨-, entry⟩ := addition_open hlaid h hday made
    exact ⟨s, (mem_repairDays.1 hday).1, addition?_category made, entry⟩
  · rw [removals]
    exact chain.removals_nodup
  · rw [removals]
    have dated {e : Period × PeriodDay} (he : e ∈ chain.repairDays) {r : Removal}
        (hr : r ∈ e.2.wrongReplacings.map (removalOf e.1.name)) :
        r.category = e.1.name ∧ r.date = e.2.date := by
      obtain ⟨a, wrong, rfl⟩ := List.mem_map.1 hr
      exact ⟨rfl, (removal_open hlaid h he wrong).2.2.1⟩
    refine List.Pairwise.sublist chain.removals_sublist (List.pairwise_flatMap.2 ⟨fun e he => ?_, ?_⟩)
    · refine List.pairwise_of_forall_mem_list fun r hr r' hr' _ => ?_
      rw [(dated he hr).2, (dated he hr').2]
      exact Date.le_refl _
    · refine (repairDays_ascend hlaid h).imp_of_mem fun he he' ascends r hr r' hr' same => ?_
      rw [(dated he hr).2, (dated he' hr').2]
      exact Date.le_of_lt (ascends ((dated he hr).1.symm.trans (same.trans (dated he' hr').1)))
  · refine additions_pairwise (fun e he e' he' x y ascends first second same => ?_) additions
      (repairDays_ascend hlaid h)
    rw [(addition_open hlaid h he first).1, (addition_open hlaid h he' second).1]
    exact ascends (by rw [← addition?_category first, ← addition?_category second, same])

def sampleUnmeasured : List Absence :=
  [⟨⟨1, "09M", .sample 2024 4 1, .specifiedMinutes, some 130, none⟩, 1⟩,
    ⟨⟨1, "09H1", .sample 2024 4 1, .nothing, none, none⟩, 2⟩,
    ⟨⟨1, "09M", .sample 2024 4 3, .specifiedMinutes, none, none⟩, 3⟩,
    ⟨⟨1, "09H1", .sample 2024 4 4, .nothing, none, none⟩, 4⟩]

def sampleOpen : Option (Chain × Chain × Repair) := do
  let laid ← (layOut sampleRules samplePivot).toOption
  let chain ← (fill sampleRules .unknown samplePivot laid sampleUnmeasured).toOption
  let repair ← (chain.repair sampleRules).toOption
  return (laid, chain, repair)

/-- The record of the first of April gives way to one of two hours; from the third on nothing is touched. -/
theorem sample_protected : ∃ laid chain repair, layOut sampleRules samplePivot = .ok laid ∧
    fill sampleRules .unknown samplePivot laid sampleUnmeasured = .ok chain ∧
      chain.repair sampleRules = .ok repair ∧ Protected chain sampleUnmeasured repair ∧
        chain.periods.map (·.compromisedFrom) = [some (.sample 2024 4 3)] ∧
          repair = ⟨1, [⟨"HOURLY", 2, "09H1", .sample 2024 4 1⟩],
            [⟨"HOURLY", .sample 2024 4 1, "09H2", .nothing⟩]⟩ := by
  have run : (sampleOpen.any fun r =>
      decide (r.2.1.periods.map (·.compromisedFrom) = [some (.sample 2024 4 3)]) &&
        decide (r.2.2 = ⟨1, [⟨"HOURLY", 2, "09H1", .sample 2024 4 1⟩],
          [⟨"HOURLY", .sample 2024 4 1, "09H2", .nothing⟩]⟩)) = true := by cbv
  obtain ⟨⟨laid, chain, repair⟩, found, answers⟩ := (Option.any_eq_true _ _).1 run
  simp only [Bool.and_eq_true, decide_eq_true_eq] at answers
  simp only [sampleOpen, Option.bind_eq_bind, Option.bind_eq_some_iff] at found
  obtain ⟨_, hlaid, _, filled, _, planned, same⟩ := found
  cases same
  have hlaid := ok_of_toOption hlaid
  have filled := ok_of_toOption filled
  have planned := ok_of_toOption planned
  exact ⟨laid, chain, repair, hlaid, filled, planned, (repair_protected hlaid filled planned).2.1, answers⟩

end Chain

end Entitlement
