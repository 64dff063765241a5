import Entitlement.Proofs.Chain.Layout
import Entitlement.Proofs.Renumbering.Basic

/-!
Building a chain from renumbered records. Codes, dates, kinds and minutes are as before, and records keep
their order, so every record meets the same periods and weighs the same; the chain is the renumbered one.
-/

namespace Entitlement

namespace Shift

open Renumbering

variable (s : Shift) (a : Absence)

section Periods

variable (p : Period)

theorem dayAt_period (date : Date) : (s.period p).dayAt date = s.day (p.dayAt date) := by
  have found : (s.period p).day? date = (p.day? date).map s.day :=
    OrderedMap.get?_relabel .same s.day p.days date
  unfold Period.dayAt
  rw [found]
  cases p.day? date with
  | none => rfl
  | some day => rfl

theorem onDay_period {change change' : PeriodDay → PeriodDay}
    (commutes : ∀ day, change' (s.day day) = s.day (change day)) (date : Date) :
    (s.period p).onDay date change' = s.period (p.onDay date change) := by
  unfold Period.onDay
  rw [dayAt_period, commutes]
  simp only [period, ← OrderedMap.insert_relabel]
  rfl

theorem flag_period (c : Charge) : (s.period p).flag (s.charge c) = s.period (p.flag c) := by
  unfold Period.flag
  show (if c.isAdmitted then _ else _) = _
  split
  · rfl
  · simp only [period, ← addProblem_findings]
    rfl

theorem charge_period (c : Charge) : (s.period p).charge (s.charge c) = s.period (p.charge c) := by
  have counted : (if c.beforeInitialization then (s.period p).flag (s.charge c)
        else { (s.period p).flag (s.charge c) with taken := ((s.period p).flag (s.charge c)).taken + c.amount }) =
      s.period (if c.beforeInitialization then p.flag c
        else { p.flag c with taken := (p.flag c).taken + c.amount }) := by
    rw [flag_period]
    split
    · rfl
    · rfl
  unfold Period.charge
  refine Eq.trans (congrArg (Period.onDay · c.absence.date _) counted) ?_
  refine s.onDay_period _ (fun day => ?_) c.absence.date
  simp only [Renumbering.day, List.map_append, List.map_cons, List.map_nil]

theorem addCompletion_period (amount : Amount) :
    (s.period p).addCompletion (s.record a) amount = s.period (p.addCompletion a amount) := by
  refine s.onDay_period p (fun day => ?_) a.date
  simp only [Renumbering.day, List.map_append, List.map_cons, List.map_nil]

theorem addReplacing_period :
    (s.period p).addReplacing (s.record a) = s.period (p.addReplacing a) := by
  refine s.onDay_period p (fun day => ?_) a.date
  simp only [Renumbering.day, List.map_append, List.map_cons, List.map_nil]

theorem compromise_period (error : CriticalError) :
    (s.period p).compromise (s.error error) = s.period (p.compromise error) := by
  unfold Period.compromise
  simp only [period, ← addCritical_findings]
  rfl

theorem completeWith_period (working : Option Amount) :
    (s.period p).completeWith working (s.record a) = s.period (p.completeWith working a) := by
  have same : (s.period p).category.completion = p.category.completion := rfl
  unfold Period.completeWith
  rw [same]
  cases p.category.completion with
  | none => rfl
  | some completion =>
    have weight : (s.record a).weight? completion.unit working = a.weight? completion.unit working := rfl
    simp only [weight]
    cases a.weight? completion.unit working with
    | some amount => exact s.addCompletion_period a p amount
    | none => exact s.compromise_period p (p.amountError a)

theorem completed_day (day : PeriodDay) : (s.day day).completed = day.completed := by
  unfold PeriodDay.completed
  simp only [Renumbering.day, List.map_map]
  rfl

theorem settleDay_period (completion : Completion) (residual : Amount) (date : Date) (day : PeriodDay) :
    p.settleDay completion residual date (s.day day) =
      ((p.settleDay completion residual date day).1, s.day (p.settleDay completion residual date day).2) := by
  unfold Period.settleDay
  rw [completed_day]
  show (if day.beforeInitialization then _ else _) = _
  split
  · rfl
  · split
    · rfl
    · rfl

theorem settle_period : (s.period p).settle = s.period p.settle := by
  have same : (s.period p).category.completion = p.category.completion := rfl
  unfold Period.settle
  rw [same]
  cases p.category.completion with
  | none => rfl
  | some completion =>
    have days := OrderedMap.scan_relabel p.days (s.settleDay_period p completion) p.initialResidual
    simp only [period, ← days]
    rfl

end Periods

theorem offer_periods (working : Option Amount) (ps : List Period) :
    Chain.offer working (s.record a) (ps.map s.period) =
      ((Chain.offer working a ps).1.map s.period, (Chain.offer working a ps).2) := by
  induction ps with
  | nil => rfl
  | cons p rest ih =>
    have takes : (s.period p).takes (s.record a) = p.takes a := rfl
    have weight : (s.record a).weight? (s.period p).unit working = a.weight? p.unit working := rfl
    have assess (amount : Amount) :
        (s.period p).assess (s.record a) amount = s.charge (p.assess a amount) := rfl
    have admitted (c : Charge) : (s.charge c).isAdmitted = c.isAdmitted := rfl
    simp only [List.map_cons, Chain.offer, takes, weight, ih]
    by_cases h : p.takes a = true
    · simp only [if_pos h]
      cases a.weight? p.unit working with
      | none =>
        exact congrArg (fun q => (q :: rest.map s.period, true)) (s.compromise_period p (p.amountError a))
      | some amount =>
        simp only [assess, admitted, charge_period]
        split
        · rfl
        · obtain ⟨later, taken⟩ := Chain.offer working a rest
          cases taken with
          | true => rfl
          | false => rfl
    · simp only [if_neg h, List.map_cons]

theorem attach_period (working : Option Amount) (p : Period) :
    Chain.attach working (s.record a) (s.period p) = s.period (Chain.attach working a p) := by
  unfold Chain.attach
  have completed : (if p.completes a then (s.period p).completeWith working (s.record a) else s.period p) =
      s.period (if p.completes a then p.completeWith working a else p) := by
    rw [completeWith_period]
    exact (apply_ite s.period _ _ _).symm
  show (if p.replaces a then Period.addReplacing (if p.completes a then _ else _) _ else
    if p.completes a then _ else _) = _
  rw [completed, addReplacing_period]
  exact (apply_ite s.period _ _ _).symm

theorem attachAll_periods (category : CategoryName) (working : Option Amount) (ps : List Period) :
    Chain.attachAll category working (s.record a) (ps.map s.period) =
      s.attempt (fun r => (r.1.map s.period, r.2)) (Chain.attachAll category working a ps) := by
  have completing : (ps.map s.period).countP (fun p => p.completes (s.record a)) =
      ps.countP fun p => p.completes a := List.countP_map
  have replacing : (ps.map s.period).countP (fun p => p.replaces (s.record a)) =
      ps.countP fun p => p.replaces a := List.countP_map
  have attached : (ps.map s.period).map (Chain.attach working (s.record a)) =
      (ps.map (Chain.attach working a)).map s.period := by
    simp only [List.map_map]
    exact List.map_congr_left fun p _ => s.attach_period a working p
  unfold Chain.attachAll
  simp only [completing, replacing, attached]
  split
  · rfl
  · rfl

/-- Two computations one after the other, the second with the answer of the first. -/
theorem attempt_bind {α β : Type} {answer : α → α} {answer' : β → β} {x : Except CriticalError α}
    {f f' : α → Except CriticalError β} (commutes : ∀ v, f' (answer v) = s.attempt answer' (f v)) :
    (s.attempt answer x >>= f') = s.attempt answer' (x >>= f) := by
  cases x with
  | ok v => exact commutes v
  | error e => rfl

theorem enter_chain (working : WorkingTime) (c : Chain) :
    Chain.enter working (s.chain c) (s.record a) = s.attempt s.chain (Chain.enter working c a) := by
  have here : working (s.chain c).person (s.record a).date = working c.person a.date := rfl
  have periods : (s.chain c).periods = c.periods.map s.period := rfl
  have category : (s.chain c).category = c.category := rfl
  unfold Chain.enter
  simp only [here, periods, category, offer_periods, attachAll_periods]
  refine s.attempt_bind fun r => ?_
  obtain ⟨ps, attached⟩ := r
  simp only [attempt, pure, Except.pure, chain]
  congr 2
  show (if _ then (c.participants.relabel s.embeds).insert (s.number a.id) else _) = _
  rw [OrderedSet.insert_relabel]
  exact (apply_ite (fun t => OrderedSet.relabel t s.embeds) _ _ _).symm

theorem settle_chain (c : Chain) : (s.chain c).settle = s.chain c.settle := by
  have periods : (c.periods.map s.period).map (·.settle) = (c.periods.map (·.settle)).map s.period := by
    simp only [List.map_map]
    exact List.map_congr_left fun p _ => s.settle_period p
  have gathered (ps : List Period) (f : Findings) :
      (ps.map s.period).foldl (fun f p => f.merge p.findings) (s.findings f) =
        s.findings (ps.foldl (fun f p => f.merge p.findings) f) := by
    rw [List.foldl_map]
    exact List.foldl_hom s.findings fun f p => s.merge_findings f p.findings
  unfold Chain.settle
  simp only [chain, periods, gathered]

theorem codes_chain (c : Chain) : (s.chain c).codes = c.codes := by
  unfold Chain.codes
  simp only [chain, List.flatMap_map]
  rfl

theorem categories_chain (c : Chain) : (s.chain c).categories = c.categories := by
  unfold Chain.categories
  simp only [chain, List.map_map]
  rfl

theorem range_chain (c : Chain) : (s.chain c).range = c.range := by
  have periods : (s.chain c).periods = c.periods.map s.period := rfl
  unfold Chain.range
  rw [periods]
  cases c.periods with
  | nil => rfl
  | cons first rest =>
    simp only [List.map_cons, List.foldl_map]
    rfl

theorem reach_chain (c : Chain) : (s.chain c).reach = c.reach := by
  unfold Chain.reach
  rw [range_chain]
  rfl

theorem finalResidual_period (p : Period) : (s.period p).finalResidual = p.finalResidual := by
  have days : (s.period p).days.values = p.days.values.map s.day :=
    OrderedMap.values_relabel .same s.day p.days
  have last : ((s.period p).days.values.filter fun d => !d.beforeInitialization && !d.compromised).getLast? =
      ((p.days.values.filter fun d => !d.beforeInitialization && !d.compromised).getLast?).map s.day := by
    rw [days, List.filter_map, List.getLast?_map]
    rfl
  unfold Period.finalResidual
  rw [last]
  cases (p.days.values.filter fun d => !d.beforeInitialization && !d.compromised).getLast? with
  | none => rfl
  | some d => rfl

theorem balances_chain (c : Chain) : (s.chain c).balances = c.balances := by
  have one (p : Period) : (s.period p).balance = p.balance := by
    unfold Period.balance
    rw [finalResidual_period]
    rfl
  unfold Chain.balances
  simp only [chain, List.map_map]
  exact List.map_congr_left fun p _ => one p

theorem relevant_chain (c : Chain) (range : DateRange) (records : List Absence) :
    (s.chain c).relevant range (records.map s.record) = (c.relevant range records).map s.record := by
  unfold Chain.relevant
  simp only [codes_chain, List.filter_map, inOrder_records]
  rfl

/-- Periods that nothing has been brought into name no records. -/
theorem yearPeriods_fixed (link : Chain.CarryOver) (profile : Profile) (year : Int) (range : DateRange)
    (carried : Amount) : (link.yearPeriods profile year range carried).map s.period =
      link.yearPeriods profile year range carried := by
  unfold Chain.CarryOver.yearPeriods
  simp only [List.map_append, ← Option.toList_map, Option.map_map]
  rfl

theorem leftOver_periods (link : Chain.CarryOver) (ps : List Period) :
    link.leftOver (ps.map s.period) = link.leftOver ps := by
  unfold Chain.CarryOver.leftOver
  rw [List.find?_map, Option.bind_map]
  rfl

theorem replayYear_records (link : Chain.CarryOver) (working : Date → Option Amount) (profile : Profile)
    (history : List Absence) (state : Amount × List CriticalError) (year : Int) :
    link.replayYear working profile (history.map s.record) (state.1, state.2.map s.error) year =
      ((link.replayYear working profile history state year).1,
        (link.replayYear working profile history state year).2.map s.error) := by
  unfold Chain.CarryOver.replayYear
  split
  · rfl
  · next range _ =>
    have offered (records : List Absence) (ps : List Period) :
        (records.map s.record).foldl (fun ps a => (Chain.offer (working a.date) a ps).1) (ps.map s.period) =
          (records.foldl (fun ps a => (Chain.offer (working a.date) a ps).1) ps).map s.period := by
      rw [List.foldl_map]
      refine List.foldl_hom (List.map s.period) fun ps a => ?_
      exact congrArg Prod.fst (s.offer_periods a (working a.date) ps)
    have dated : (history.map s.record).filter (fun a => a.date.year = year) =
        (history.filter fun a => a.date.year = year).map s.record := List.filter_map
    simp only [dated]
    rw [← s.yearPeriods_fixed, offered, leftOver_periods, s.yearPeriods_fixed]
    simp only [List.map_append, List.flatMap_map, List.map_flatMap]
    rfl

theorem replay_records (link : Chain.CarryOver) (working : WorkingTime) (person : PersonId)
    (profile : Profile) (year : Int) (records : List Absence) :
    link.replay working person profile year (records.map s.record) =
      ((link.replay working person profile year records).1,
        (link.replay working person profile year records).2.map s.error) := by
  have history : link.history person year (records.map s.record) =
      (link.history person year records).map s.record := by
    unfold Chain.CarryOver.history
    rw [List.filter_map, inOrder_records]
    rfl
  unfold Chain.CarryOver.replay
  rw [history]
  have first : ((link.history person year records).map s.record).head?.elim year (·.date.year) =
      (link.history person year records).head?.elim year (·.date.year) := by
    cases link.history person year records with
    | nil => rfl
    | cons a rest => rfl
  have run (years : List Int) (state : Amount × List CriticalError) (history : List Absence) :
      years.foldl (link.replayYear (working person) profile (history.map s.record))
          (state.1, state.2.map s.error) =
        ((years.foldl (link.replayYear (working person) profile history) state).1,
          (years.foldl (link.replayYear (working person) profile history) state).2.map s.error) :=
    List.foldl_hom (fun state : Amount × List CriticalError => (state.1, state.2.map s.error))
      (s.replayYear_records link (working person) profile history)
  simp only [first]
  exact run _ (_, []) _

theorem seedPeriod_records (rules : RuleTree) (working : WorkingTime) (pivot : Pivot)
    (records : List Absence) (p : Period) :
    Chain.seedPeriod rules working pivot (records.map s.record) (s.period p) =
      s.period (Chain.seedPeriod rules working pivot records p) := by
  have same : Chain.carryOver? rules (s.period p) = Chain.carryOver? rules p := rfl
  unfold Chain.seedPeriod
  rw [same]
  cases Chain.carryOver? rules p with
  | none => rfl
  | some link =>
    have seeded (limit : Amount) : (s.period p).seed limit = s.period (p.seed limit) :=
      (apply_ite s.period _ p { p with limit := limit }).symm
    simp only [replay_records, seeded, List.foldl_map]
    exact List.foldl_hom s.period fun p error => s.compromise_period p error

theorem fill_records (rules : RuleTree) (working : WorkingTime) (pivot : Pivot) (c : Chain)
    (records : List Absence) :
    Chain.fill rules working pivot (s.chain c) (records.map s.record) =
      s.attempt s.chain (Chain.fill rules working pivot c records) := by
  have entered (l : List Absence) (c : Chain) :
      (l.map s.record).foldlM (Chain.enter working) (s.chain c) =
        s.attempt s.chain (l.foldlM (Chain.enter working) c) := by
    induction l generalizing c with
    | nil => rfl
    | cons a rest ih =>
      simp only [List.map_cons, List.foldlM_cons, enter_chain]
      exact s.attempt_bind ih
  have seeded : (c.periods.map s.period).map (Chain.seedPeriod rules working pivot (records.map s.record)) =
      (c.periods.map (Chain.seedPeriod rules working pivot records)).map s.period := by
    simp only [List.map_map]
    exact List.map_congr_left fun p _ => s.seedPeriod_records rules working pivot records p
  unfold Chain.fill
  rw [range_chain]
  cases c.range with
  | none => rfl
  | some range =>
    simp only [relevant_chain]
    have begun :
        { s.chain c with
          periods := (s.chain c).periods.map (Chain.seedPeriod rules working pivot (records.map s.record)) } =
        s.chain { c with periods := c.periods.map (Chain.seedPeriod rules working pivot records) } := by
      simp only [chain, seeded]
    rw [begun, entered]
    refine s.attempt_bind fun c => ?_
    rw [settle_chain]
    rfl

/-- A chain that is only laid out names no record, and neither does an error in laying it out. -/
theorem layOut_fixed (rules : RuleTree) (pivot : Pivot) :
    s.attempt s.chain (Chain.layOut rules pivot) = Chain.layOut rules pivot := by
  cases laid : Chain.layOut rules pivot with
  | ok c =>
    obtain ⟨-, findings, participants, periods⟩ := Chain.layOut_empty laid
    have blank : c.periods.map s.period = c.periods.map id := by
      refine List.map_congr_left fun p hp => ?_
      obtain ⟨category, natural, range, rfl⟩ := periods p hp
      rfl
    have fixed : s.chain c = c := by
      unfold chain
      rw [blank, List.map_id, findings, participants, findings_empty]
      obtain ⟨person, category, date, ps, missing, f, ids, history⟩ := c
      cases findings
      cases participants
      rfl
    exact congrArg Except.ok fixed
  | error e =>
    have unnamed : e.absence = none := by
      unfold Chain.layOut at laid
      dsimp only at laid
      split at laid
      · cases laid
        rfl
      · split at laid
        · cases laid
        · split at laid
          · cases laid
            rfl
          · cases laid
          · cases laid
    have fixed : s.error e = e := by
      unfold error
      rw [unnamed]
      obtain ⟨category, date, absence, fault⟩ := e
      cases unnamed
      rfl
    exact congrArg Except.error fixed

end Shift

end Entitlement
