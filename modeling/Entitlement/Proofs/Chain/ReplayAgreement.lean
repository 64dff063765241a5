import Entitlement.Proofs.Chain.CarryPair
import Entitlement.Proofs.Chain.Concerned

/-!
The replay and the chains of a carry-over pair agree. A replayed year only offers records to bare
periods, while a chain also attaches records, seeds limits and notes errors; both keep the same terms
and totals. So what a chain has left in its source is what the replay of that year leaves over, and
the carry-over of the year after is granted it.
-/

namespace Entitlement

open DateRange

namespace Period

def SameTotals (p q : Period) : Prop :=
  p.terms = q.terms ∧ p.taken = q.taken

theorem taken_completeWith (p : Period) (working : Option Amount) (record : Absence) :
    (p.completeWith working record).taken = p.taken := by
  unfold completeWith
  split
  · rfl
  · split <;> rfl

theorem sameTotals_respected : Chain.Respected SameTotals where
  terms h := h.1
  taken h := h.2
  charge c h := ⟨by simp [h.1], by rw [taken_charge, taken_charge, h.2]⟩
  compromise _ h := h
  addCompletion _ _ h := h
  addReplacing _ h := h

theorem SameTotals.remaining_eq {p q : Period} (h : SameTotals p q) : p.remaining = q.remaining := by
  have limit := (terms_eq_iff.1 h.1).2.2.1
  rw [remaining, remaining, isUnlimited, isUnlimited, residual, residual, limit, h.2]

theorem SameTotals.name_eq {p q : Period} (h : SameTotals p q) : p.name = q.name := by
  rw [name, name, (terms_eq_iff.1 h.1).1]

end Period

namespace Chain

open Period (SameTotals)

theorem attach_totals (working : Option Amount) (record : Absence) (p : Period) :
    SameTotals (attach working record p) p := by
  refine ⟨attach_terms working record p, ?_⟩
  have completed : (if p.completes record then p.completeWith working record else p).taken =
      p.taken := by
    split
    · exact Period.taken_completeWith p working record
    · rfl
  simp only [attach]
  by_cases replaces : p.replaces record = true
  · rw [if_pos replaces]
    exact completed
  · rw [if_neg replaces]
    exact completed

def offerAll (working : Date → Option Amount) (records : List Absence) (periods : List Period) :
    List Period :=
  records.foldl (fun periods a => (offer (working a.date) a periods).1) periods

theorem offerAll_terms (working : Date → Option Amount) (records : List Absence)
    (periods : List Period) :
    (offerAll working records periods).map Period.terms = periods.map Period.terms := by
  induction records generalizing periods with
  | nil => rfl
  | cons a rest ih => exact (ih _).trans (offer_terms (working a.date) a periods)

/-- Records that no period takes may be dropped before they are offered. -/
theorem offerAll_filter (working : Date → Option Amount) {keep : Absence → Bool}
    {periods : List Period}
    (h : ∀ a, keep a = false → ∀ p ∈ periods, p.takes a = false) (records : List Absence) :
    offerAll working records periods = offerAll working (records.filter keep) periods := by
  induction records generalizing periods with
  | nil => rfl
  | cons a rest ih =>
      by_cases kept : keep a = true
      · rw [List.filter_cons_of_pos kept]
        have offered := place_of_terms (offer_terms (working a.date) a periods)
        exact ih fun b hb => none_congr_place (fun _ _ h => Period.takes_congr h b) offered (h b hb)
      · rw [List.filter_cons_of_neg kept, ← ih h]
        have untaken : offer (working a.date) a periods = (periods, false) :=
          offer_of_not_takes (h a (Bool.eq_false_iff.2 kept))
        exact congrArg (fun offered => offerAll working rest offered.1) untaken

theorem untaken {periods : List Period} (a : Absence)
    (h : (periods.any fun p => p.takes a) = false) : ∀ p ∈ periods, p.takes a = false :=
  fun p hp => Bool.eq_false_iff.2 (List.any_eq_false.1 h p hp)

/-- Bringing records in and offering them alone lead to the same totals. -/
theorem bringAll_totals (working : Date → Option Amount) (records : List Absence)
    {ps qs : List Period} (h : List.Forall₂ SameTotals ps qs) :
    List.Forall₂ SameTotals (bringAll working records ps) (offerAll working records qs) := by
  induction records generalizing ps qs with
  | nil => exact h
  | cons a rest ih =>
      apply ih
      have offered := (offer_related Period.sameTotals_respected (working a.date) a h).1
      simp only [bring, List.forall₂_map_left_iff]
      apply offered.imp
      intro p q hpq
      obtain ⟨terms, taken⟩ := attach_totals (working a.date) a p
      exact ⟨terms.trans hpq.1, taken.trans hpq.2⟩

/-- What is left over depends on the totals alone. -/
theorem CarryOver.leftOver_congr (link : CarryOver) {ps qs : List Period}
    (h : List.Forall₂ SameTotals ps qs) : link.leftOver ps = link.leftOver qs := by
  have found : (ps.find? fun p => p.name = link.source.name).bind (·.remaining) =
      (qs.find? fun p => p.name = link.source.name).bind (·.remaining) := by
    induction h with
    | nil => rfl
    | @cons p q ps qs hpq _ ih =>
        rw [List.find?_cons, List.find?_cons, hpq.name_eq]
        cases decide (q.name = link.source.name) with
        | true => simpa using hpq.remaining_eq
        | false => exact ih
  rw [leftOver, leftOver, found]

/-- Settling the days of a filled chain leaves the totals as the records have left them. -/
theorem filled_totals {chain : Chain} {working : Date → Option Amount} {periods qs : List Period}
    {records : List Absence} (h : List.Forall₂ SameTotals (bringAll working records periods) qs) :
    List.Forall₂ SameTotals (chain.filled working periods records).periods qs := by
  simp only [filled, settle, List.forall₂_map_left_iff]
  apply h.imp
  intro p q hpq
  exact ⟨(Period.terms_settle p).trans hpq.1, (Period.taken_settle p).trans hpq.2⟩

theorem terms_of_totals {ps qs : List Period} (h : List.Forall₂ SameTotals ps qs) :
    ps.map Period.terms = qs.map Period.terms := by
  induction h with
  | nil => rfl
  | cons hpq _ ih => rw [List.map_cons, List.map_cons, hpq.1, ih]

end Chain

namespace CarryPair

open Chain
open Period (SameTotals)

variable {rules : RuleTree} {carry source : Category} {untilMonth : Nat}

theorem carryOver_carry (pair : CarryPair rules carry source untilMonth)
    (takable : source.takable.isSome = true) {p : Period} (h : p.category = carry) :
    carryOver? rules p = some (link carry source untilMonth) := by
  simp [carryOver?, h, pair.period, pair.source_known, takable, link]

theorem carryOver_source (pair : CarryPair rules carry source untilMonth) {p : Period}
    (h : p.category = source) : carryOver? rules p = none := by
  simp [carryOver?, h, pair.yearly]

theorem seed_start (category : Category) (range : DateRange) (carried : Amount)
    (initialization : Option Initialization) :
    (Period.start category range 0 initialization).seed carried =
      Period.start category range carried initialization := by
  unfold Period.seed Period.start
  cases h : initialization.bind (·.limit) with
  | none => simp
  | some limit => simp

/-- Seeding the periods of a pair carries over what the replay has found. -/
theorem seeded_totals (pair : CarryPair rules carry source untilMonth)
    (takable : source.takable.isSome = true) (working : WorkingTime) (pivot : Pivot)
    (records : List Absence) :
    List.Forall₂ SameTotals
      (((link carry source untilMonth).yearPeriods pivot.profile pivot.date.year
        (yearAround pivot.date) 0).map (seedPeriod rules working pivot records))
      ((link carry source untilMonth).yearPeriods pivot.profile pivot.date.year
        (yearAround pivot.date) ((link carry source untilMonth).replay working pivot.person
          pivot.profile pivot.date.year records).1) := by
  have seeded (p : Period) (h : p.category = carry) : SameTotals (seedPeriod rules working pivot records p)
      (p.seed ((link carry source untilMonth).replay working pivot.person pivot.profile
        pivot.date.year records).1) := by
    rw [seedPeriod, pair.carryOver_carry takable h]
    exact Period.compromiseAll_terms _ _
  have kept (p : Period) (h : p.category = source) :
      SameTotals (seedPeriod rules working pivot records p) p := by
    rw [seedPeriod, pair.carryOver_source h]
    exact ⟨rfl, rfl⟩
  simp only [CarryOver.yearPeriods, List.map_append]
  refine List.rel_append ?_ ?_
  · cases (throughMonth? pivot.date.year (link carry source untilMonth).untilMonth).bind
        pivot.profile.latestOverlap? with
    | none => exact .nil
    | some clipped =>
      refine .cons ?_ .nil
      have agrees := seeded (.start carry clipped 0
        (carry.initializationIn clipped pivot.profile.initializations)) rfl
      rw [seed_start] at agrees
      exact agrees
  · cases pivot.profile.latestOverlap? (yearAround pivot.date) with
    | none => exact .nil
    | some clipped => exact .cons (kept _ rfl) .nil

/-- A period of a replayed year lies in the year. -/
theorem year_of_mem {link : CarryOver} {profile : Profile} {contract : Contract}
    (single : profile.contracts = [contract]) {date : Date} {carried : Amount} {p : Period}
    (hp : p ∈ link.yearPeriods profile date.year (yearAround date) carried) {d : Date}
    (hd : d ∈ p.range) : d.year = date.year ∧ (p.category = link.carry ∨ p.category = link.source) := by
  simp only [CarryOver.yearPeriods, latestOverlap_eq single, List.mem_append, Option.mem_toList,
    Option.map_eq_some_iff, Option.bind_eq_some_iff] at hp
  rcases hp with ⟨clipped, ⟨natural, window, overlap⟩, rfl⟩ | ⟨clipped, overlap, rfl⟩
  · exact ⟨year_of_mem_throughMonth window ((mem_of_intersect overlap d).1 hd).1, .inl rfl⟩
  · exact ⟨mem_yearAround.1 ((mem_of_intersect overlap d).1 hd).1, .inr rfl⟩

/-- The records a chain of the pair charges are those the replay offers in that year. -/
theorem taken_records (pair : CarryPair rules carry source untilMonth) {profile : Profile}
    {contract : Contract} (single : profile.contracts = [contract]) (date : Date) (carried : Amount)
    (person : PersonId) (records : List Absence) {periods : List Period}
    (h : periods = (link carry source untilMonth).yearPeriods profile date.year (yearAround date)
      carried) :
    ((concerned periods person records).filter fun a => periods.any fun p => p.takes a) =
      (((link carry source untilMonth).history person (date.year + 1) records).filter
        fun a => a.date.year = date.year).filter fun a => periods.any fun p => p.takes a := by
  rw [concerned, CarryOver.history, Absence.inOrder_filter, Absence.inOrder_filter,
    Absence.inOrder_filter, List.filter_filter, List.filter_filter, List.filter_filter]
  congr 1
  apply List.filter_congr
  intro a _
  rw [Bool.eq_iff_iff]
  simp only [Bool.and_eq_true, decide_eq_true_eq, List.any_eq_true]
  constructor
  · rintro ⟨⟨p, hp, takes⟩, same, -⟩
    obtain ⟨covers, code⟩ := Bool.and_eq_true_iff.1 takes
    obtain ⟨year, category⟩ := year_of_mem single (h ▸ hp) (DateRange.contains_iff.1 covers)
    have sourced : source.takes a.code = true := by
      rcases category with category | category
      · rw [category] at code
        exact pair.within _ code
      · rw [category] at code
        exact code
    exact ⟨⟨⟨p, hp, takes⟩, year⟩, ⟨same, Int.lt_add_one_iff.2 (Int.le_of_eq year)⟩, sourced⟩
  · rintro ⟨⟨⟨p, hp, takes⟩, -⟩, ⟨same, -⟩, -⟩
    exact ⟨⟨p, hp, takes⟩, same, p, hp, by simp [Period.concerns, takes]⟩

section Built

variable (pair : CarryPair rules carry source untilMonth) {working : WorkingTime} {pivot : Pivot}
  {contract : Contract} (single : pivot.profile.contracts = [contract])
  (on : contract.contains pivot.date)
  (named : pivot.category = carry.name ∨ pivot.category = source.name) {records : List Absence}
  {chain : Chain} (h : Chain.build rules working pivot records = .ok chain)

include pair single on named h

/-- A chain of the pair has the terms and totals of the replayed year, its carry-over granted what the
replay carries into that year. -/
theorem build_totals :
    List.Forall₂ SameTotals chain.periods
      (offerAll (working pivot.person)
        (((link carry source untilMonth).history pivot.person (pivot.date.year + 1) records).filter
          fun a => a.date.year = pivot.date.year)
        ((link carry source untilMonth).yearPeriods pivot.profile pivot.date.year
          (yearAround pivot.date) ((link carry source untilMonth).replay working pivot.person
            pivot.profile pivot.date.year records).1)) := by
  obtain ⟨laid, hlaid, -, rfl⟩ := Chain.build_ok h
  obtain ⟨takable, person, periods⟩ := pair.layOut_eq single on named hlaid
  have seeded := pair.seeded_totals takable working pivot records
  have places := place_of_terms (terms_of_totals seeded)
  rw [seeded_places] at places
  rw [← periods] at seeded places
  rw [person, concerned_congr places]
  apply filled_totals
  have brought := bringAll_totals (working pivot.person) (concerned
    ((link carry source untilMonth).yearPeriods pivot.profile pivot.date.year
      (yearAround pivot.date) ((link carry source untilMonth).replay working pivot.person
        pivot.profile pivot.date.year records).1) pivot.person records) seeded
  rw [offerAll_filter _ untaken, pair.taken_records single pivot.date _ _ _ rfl,
    ← offerAll_filter _ untaken] at brought
  exact brought

/-- What a chain has left in its source is what the replay carries into the next year. -/
theorem leftOver_build
    (begun : (link carry source untilMonth).history pivot.person (pivot.date.year + 1) records ≠ []) :
    (link carry source untilMonth).leftOver chain.periods =
      ((link carry source untilMonth).replay working pivot.person pivot.profile
        (pivot.date.year + 1) records).1 := by
  rw [CarryOver.leftOver_congr _ (pair.build_totals single on named h),
    CarryOver.replay_succ _ working pivot.person pivot.profile pivot.date.year begun]
  simp only [CarryOver.replayYear, year?_eq]
  rfl

/-- The carry-over of a chain is granted what the replay has found, unless a balance says otherwise. -/
theorem limit_build {k : Period} (hk : k ∈ chain.periods) (carries : k.name = carry.name)
    (free : k.initialization.bind (·.limit) = none) :
    k.limit = ((link carry source untilMonth).replay working pivot.person pivot.profile
      pivot.date.year records).1 := by
  have terms := terms_of_totals (pair.build_totals single on named h)
  rw [offerAll_terms] at terms
  obtain ⟨q, hq, same⟩ := List.mem_map.1 (terms ▸ List.mem_map_of_mem (f := Period.terms) hk)
  obtain ⟨category, -, limit, initialization⟩ := Period.terms_eq_iff.1 same
  rw [← initialization] at free
  rw [← limit]
  simp only [CarryOver.yearPeriods, List.mem_append, Option.mem_toList,
    Option.map_eq_some_iff] at hq
  rcases hq with ⟨clipped, -, rfl⟩ | ⟨clipped, -, rfl⟩
  · simp only [Period.start] at free ⊢
    rw [free]
    rfl
  · exact absurd (carries.symm.trans (congrArg Category.name category.symm)) pair.name_ne

/-- The source stands in every chain of the pair. -/
theorem source_mem : ∃ s, chain.periods.find? (fun s => s.name = source.name) = some s := by
  have terms := terms_of_totals (pair.build_totals single on named h)
  rw [offerAll_terms] at terms
  obtain ⟨clipped, overlap⟩ := intersect_of_mem (mem_yearAround.2 rfl) (Contract.contains_iff.1 on)
  rw [← latestOverlap_eq single] at overlap
  have mem : ∃ s ∈ chain.periods, s.name = source.name := by
    have laid : (Period.start source clipped (source.limitFor (yearAround pivot.date) clipped)
        (source.initializationIn clipped pivot.profile.initializations)).terms ∈
          chain.periods.map Period.terms := by
      rw [terms]
      refine List.mem_map_of_mem (List.mem_append_right _ ?_)
      simp [overlap, link]
    obtain ⟨s, hs, same⟩ := List.mem_map.1 laid
    exact ⟨s, hs, congrArg Category.name (Period.terms_eq_iff.1 same).1⟩
  obtain ⟨s, hs, sourced⟩ := mem
  exact Option.isSome_iff_exists.1 (List.find?_isSome.2 ⟨s, hs, by simpa using sourced⟩)

end Built

/-- The replay agrees with the live chain: a carry-over whose balance sets no limit is granted what the
chain of the year before has left in the source, and nothing where the source is overdrawn or
unlimited. -/
theorem grant_eq_remaining (pair : CarryPair rules carry source untilMonth) {working : WorkingTime}
    {person : PersonId} {profile : Profile} {contract : Contract}
    (single : profile.contracts = [contract]) {p q : Date} (onP : contract.contains p)
    (onQ : contract.contains q) (following : q.year = p.year + 1) {nameP nameQ : CategoryName}
    (namedP : nameP = carry.name ∨ nameP = source.name)
    (namedQ : nameQ = carry.name ∨ nameQ = source.name) {records : List Absence}
    (begun : ∃ a ∈ records, a.person = person ∧ source.takes a.code ∧ a.date.year ≤ p.year)
    {chainP chainQ : Chain}
    (builtP : Chain.build rules working ⟨person, nameP, p, profile⟩ records = .ok chainP)
    (builtQ : Chain.build rules working ⟨person, nameQ, q, profile⟩ records = .ok chainQ)
    {k : Period} (hk : k ∈ chainQ.periods) (carries : k.name = carry.name)
    (free : k.initialization.bind (·.limit) = none) :
    ∃ s, chainP.periods.find? (fun s => s.name = source.name) = some s ∧
      k.limit = s.remaining.elim 0 fun r => max r 0 := by
  obtain ⟨s, hs⟩ := pair.source_mem single onP namedP builtP
  refine ⟨s, hs, ?_⟩
  have history : (link carry source untilMonth).history person (p.year + 1) records ≠ [] := by
    obtain ⟨a, ha, same, takes, early⟩ := begun
    exact List.ne_nil_of_mem ((CarryOver.mem_history _).2
      ⟨ha, same, Int.lt_add_one_iff.2 early, takes⟩)
  have left := pair.leftOver_build single onP namedP builtP history
  have granted := pair.limit_build single onQ namedQ builtQ hk carries free
  calc k.limit
    _ = ((link carry source untilMonth).replay working person profile q.year records).1 := granted
    _ = (link carry source untilMonth).leftOver chainP.periods := by rw [left, following]
    _ = s.remaining.elim 0 fun r => max r 0 := by
      rw [CarryOver.leftOver]
      exact congrArg (fun found => (found.bind (·.remaining)).elim 0 fun r => max r 0) hs

/-- Ten days a year, of which the unused ones stay usable up to March. -/
def sampleCarry : Category :=
  ⟨"OLD", "", .programmed, .previousYear "NEW" 3, some ⟨.units, .ofList ["HOL"], 1000⟩, none,
    some "NEW", false, false⟩

def sampleSource : Category :=
  ⟨"NEW", "", .programmed, .year, some ⟨.units, .ofList ["HOL"], 1000⟩, none, none, false, false⟩

def sampleRules : RuleTree :=
  .ofLists [sampleCarry, sampleSource] []

def sampleProfile : Profile :=
  ⟨[⟨.sample 2020 1 1, none⟩], [], []⟩

def sampleRecords : List Absence :=
  [⟨⟨1, "HOL", .sample 2023 2 1, .allDay, none, none⟩, 1⟩,
    ⟨⟨1, "HOL", .sample 2023 5 2, .allDay, none, none⟩, 2⟩]

theorem samplePair : CarryPair sampleRules sampleCarry sampleSource 3 where
  carry_known := by cbv
  source_known := by cbv
  period := rfl
  yearly := rfl
  next := rfl
  last := rfl
  sole := by
    have all : sampleRules.all = [sampleSource, sampleCarry] := by cbv
    intro c hc next
    rw [all, List.mem_cons, List.mem_singleton] at hc
    rcases hc with rfl | rfl
    · cases next
    · rfl
  first := by
    have all : sampleRules.all = [sampleSource, sampleCarry] := by cbv
    intro c hc next
    rw [all, List.mem_cons, List.mem_singleton] at hc
    rcases hc with rfl | rfl
    · cases next
    · simp [sampleCarry] at next
  within := fun _ h => h

def sampleChain (date : Date) : Option Chain :=
  (Chain.build sampleRules .unknown ⟨1, "NEW", date, sampleProfile⟩ sampleRecords).toOption

/-- The day of May is the only one charged to the new entitlement, so nine days are carried over. -/
theorem nine_days_carried : ∃ chainP chainQ k s,
    Chain.build sampleRules .unknown ⟨1, "NEW", .sample 2023 12 31, sampleProfile⟩ sampleRecords =
      .ok chainP ∧
    Chain.build sampleRules .unknown ⟨1, "NEW", .sample 2024 1 1, sampleProfile⟩ sampleRecords =
      .ok chainQ ∧
    k ∈ chainQ.periods ∧ chainP.periods.find? (fun s => s.name = "NEW") = some s ∧
    k.limit = (s.remaining.elim 0 fun r => max r 0) ∧ k.limit = 900 := by
  have before : (sampleChain (.sample 2023 12 31)).isSome = true := by cbv
  have behind : ((sampleChain (.sample 2024 1 1)).any fun chain =>
      chain.periods.any fun k => decide (k.name = "OLD") &&
        (k.initialization.bind (·.limit)).isNone && decide (k.limit = 900)) = true := by cbv
  obtain ⟨chainP, builtP⟩ := Option.isSome_iff_exists.1 before
  obtain ⟨chainQ, builtQ, found⟩ := (Option.any_eq_true _ _).1 behind
  have builtP := Chain.ok_of_toOption builtP
  have builtQ := Chain.ok_of_toOption builtQ
  obtain ⟨k, hk, found⟩ := List.any_eq_true.1 found
  simp only [Bool.and_eq_true, decide_eq_true_eq, Option.isNone_iff_eq_none] at found
  have single : sampleProfile.contracts = [⟨.sample 2020 1 1, none⟩] := rfl
  have begun : ∃ a ∈ sampleRecords, a.person = 1 ∧ sampleSource.takes a.code ∧
      a.date.year ≤ (Date.sample 2023 12 31).year :=
    ⟨_, List.mem_cons_self, rfl, by cbv, by cbv⟩
  obtain ⟨s, hs, granted⟩ := samplePair.grant_eq_remaining single (by cbv) (by cbv) (by cbv) (.inr rfl)
    (.inr rfl) begun builtP builtQ hk found.1.1 found.1.2
  exact ⟨chainP, chainQ, k, s, builtP, builtQ, hk, hs, granted, found.2⟩

end CarryPair

end Entitlement
