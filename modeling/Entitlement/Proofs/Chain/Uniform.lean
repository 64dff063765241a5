import Entitlement.Proofs.Chain.Concerned
import Entitlement.Proofs.Chain.Replay
import Entitlement.Proofs.Rule.Walks

/-!
Chains of uniform rules. If linked categories divide time alike, no successor is shared and nothing
follows an unlimited category, then every date a chain covers and every category of it have that same
chain: whichever of its records is the pivot, the periods, their limits and their findings are the same.
-/

namespace Entitlement

/-- How a period rule divides time. What a year left over is used within a year. -/
def PeriodRule.grid : PeriodRule → PeriodRule
  | .previousYear _ _ => .year
  | rule => rule

/-- What is carried over is used within a year. -/
theorem Category.grid_of_carries {category : Category} (carries : category.carrySource?.isSome = true) :
    category.period.grid = .year := by
  cases period : category.period with
  | previousYear source month => rfl
  | always | year | month | child _ _ _ => simp [Category.carrySource?, period] at carries

/-- Links join categories that divide time alike, never two to the same successor, and never come from
an unlimited category. -/
structure RuleTree.Uniform (tree : RuleTree) : Prop where
  unshared : tree.Unshared
  final : ∀ c ∈ tree.all, c.isUnlimited = true → c.next = none
  aligned : ∀ a ∈ tree.all, ∀ b ∈ tree.all, a.next = some b.name → a.period.grid = b.period.grid

def Profile.Disjoint (profile : Profile) : Prop :=
  ∀ a ∈ profile.contracts, ∀ b ∈ profile.contracts, ∀ d, a.contains d → b.contains d → a = b

theorem Profile.Disjoint.contractOn? {profile : Profile} (disjoint : profile.Disjoint) {date : Date}
    {contract : Contract} (on : profile.contractOn? date = some contract) {d : Date}
    (h : contract.contains d = true) : profile.contractOn? d = some contract := by
  have mem := List.mem_of_find?_eq_some on
  cases found : profile.contractOn? d with
  | none => exact absurd h (List.find?_eq_none.1 found contract mem)
  | some other =>
    have holds : other.contains d = true :=
      List.find?_some (p := fun contract : Contract => contract.contains d) found
    rw [disjoint other (List.mem_of_find?_eq_some found) contract mem d holds h]

def Pivot.moved (pivot : Pivot) (name : CategoryName) (date : Date) : Pivot :=
  { pivot with category := name, date := date }

def Chain.moved (chain : Chain) (name : CategoryName) (date : Date) : Chain :=
  { chain with category := name, date := date }

namespace Chain

open DateRange

/-- A date in the range of a category that goes by years lies in the year of the pivot. -/
theorem year_of_rangeAround {pivot : Pivot} {contract : Contract} {category : Category}
    {natural : DateRange} (h : rangeAround pivot contract category = .ok (some natural)) {d : Date}
    (hd : d ∈ natural) (grid : category.period.grid = .year) : d.year = pivot.date.year := by
  cases period : category.period with
  | year =>
    rw [rangeAround_year period] at h
    cases h
    exact mem_yearAround.1 hd
  | previousYear source month =>
    obtain ⟨range, same, window⟩ := rangeAround_previousYear period h
    cases same
    exact year_of_mem_throughMonth window hd
  | always | month | child _ _ _ =>
    rw [period] at grid
    cases grid

/-- Every date between the birthdays has the range of the child. -/
theorem childRange_moved {name : CategoryName} {child : Dependent} {fromYears toYears : Nat}
    {date : Date} {natural : DateRange}
    (h : childRange name child fromYears toYears date = .ok (some natural)) {d : Date}
    (hd : d ∈ natural) (other : CategoryName) :
    childRange other child fromYears toYears d = childRange other child fromYears toYears date := by
  simp only [childRange] at h ⊢
  split at h
  · cases h
  · next range _ =>
    split at h
    · cases h
    · next ordered =>
      simp only [if_neg ordered]
      split at h
      · next inside =>
        cases h
        rw [if_pos hd, if_pos inside]
      · cases h

/-- Around any date in the range of a category, the categories that divide time like it have the ranges
they have around the pivot. -/
theorem rangeAround_moved {pivot : Pivot} {contract : Contract} {category other : Category}
    {natural : DateRange} (h : rangeAround pivot contract category = .ok (some natural)) {d : Date}
    (hd : d ∈ natural) (grid : other.period.grid = category.period.grid) (name : CategoryName) :
    rangeAround (pivot.moved name d) contract other = rangeAround pivot contract other := by
  have yearly (year : category.period.grid = .year) :
      rangeAround (pivot.moved name d) contract other = rangeAround pivot contract other := by
    have same : d.year = pivot.date.year := year_of_rangeAround h hd year
    rw [year] at grid
    cases period : other.period with
    | year =>
      rw [rangeAround_year period, rangeAround_year period]
      exact congrArg (fun r => Except.ok (some r)) (yearAround_congr same)
    | previousYear source month => simp only [rangeAround, period, Pivot.moved, same]
    | always | month | child _ _ _ =>
      rw [period] at grid
      cases grid
  cases period : category.period with
  | year => exact yearly (by rw [period]; rfl)
  | previousYear source month => exact yearly (by rw [period]; rfl)
  | always =>
    rw [period] at grid
    cases always : other.period with
    | always => simp only [rangeAround, always]
    | month | year | previousYear _ _ | child _ _ _ =>
      rw [always] at grid
      cases grid
  | month =>
    rw [period] at grid
    cases monthly : other.period with
    | month =>
      simp only [rangeAround, period] at h
      cases window : monthAround? pivot.date with
      | none =>
        rw [window] at h
        cases h
      | some range =>
        rw [window] at h
        cases h
        obtain ⟨year, month⟩ := (mem_monthAround window).1 hd
        simp only [rangeAround, monthly, Pivot.moved, monthAround?, year, month]
    | always | year | previousYear _ _ | child _ _ _ =>
      rw [monthly] at grid
      cases grid
  | child ordinal fromYears toYears =>
    rw [period] at grid
    cases bound : other.period with
    | child _ _ _ =>
      rw [bound] at grid
      cases grid
      simp only [rangeAround, period] at h
      cases found : pivot.profile.child? ordinal with
      | none =>
        rw [found] at h
        cases h
      | some child =>
        rw [found] at h
        simp only [rangeAround, bound, Pivot.moved, found]
        exact childRange_moved h hd other.name
    | always | month | year | previousYear _ _ =>
      rw [bound] at grid
      cases grid

/-- A walk that lays out periods has come to the end of its path, or to an unlimited category. -/
theorem layPeriods_ending {rules : RuleTree} {pivot : Pivot} {contract : Contract}
    {ending : RuleTree.PathEnd} {reached : Bool} {categories : List Category} {periods : List Period}
    (h : layPeriods rules pivot contract ending reached categories = .ok (some periods))
    (final : ∀ c ∈ categories, c.isUnlimited = true → ending = .complete) : ending = .complete := by
  induction categories generalizing reached periods with
  | nil => exact (layPeriods_nil h).1
  | cons category rest ih =>
    have later {reached : Bool} {tail : List Period}
        (h : layPeriods rules pivot contract ending reached rest = .ok (some tail)) :
        ending = .complete :=
      ih h fun c hc => final c (List.mem_cons_of_mem _ hc)
    obtain ⟨-, ⟨-, missing⟩ | ⟨natural, -, ⟨-, -, skipped⟩ | ⟨range, -, stopped | walked⟩⟩⟩ :=
      layPeriods_cons h
    · cases missing
    · exact later skipped
    · exact final category List.mem_cons_self ((Bool.and_eq_true _ _).mp stopped.1).2
    · obtain ⟨-, tail, htail, result⟩ := walked
      cases tail with
      | none => cases result
      | some tail => exact later htail

/-- Along a path on which nothing follows an unlimited category it does not matter which category was
requested, nor from which date in their ranges the categories are seen. -/
theorem layPeriods_moved {rules : RuleTree} {pivot : Pivot} {contract : Contract} {first : Category}
    {path : List Category} (leads : rules.Leads first path)
    (final : ∀ c ∈ path, c.isUnlimited = true → c.next = none) {name : CategoryName} {d : Date}
    (around : ∀ c ∈ path, rangeAround (pivot.moved name d) contract c = rangeAround pivot contract c)
    (reached reached' : Bool) :
    layPeriods rules (pivot.moved name d) contract .complete reached' path =
      layPeriods rules pivot contract .complete reached path := by
  induction leads generalizing reached reached' with
  | @last c _ =>
    rw [layPeriods, layPeriods, around c List.mem_cons_self]
    refine bind_congr fun _ => bind_congr fun natural => ?_
    cases natural with
    | none => rfl
    | some natural =>
      dsimp only
      cases natural.intersect contract.range with
      | none => rfl
      | some range =>
        dsimp only
        split <;> split <;> rfl
  | @step c s path link known leads fresh ih =>
    have limited : c.isUnlimited = false := by
      apply Bool.eq_false_iff.2
      intro unlimited
      rw [final c List.mem_cons_self unlimited] at link
      cases link
    have later (reached' : Bool) := ih (fun c hc => final c (List.mem_cons_of_mem _ hc))
      (fun c hc => around c (List.mem_cons_of_mem _ hc)) (reached || c.name = pivot.category) reached'
    rw [layPeriods, layPeriods, around c List.mem_cons_self]
    refine bind_congr fun _ => bind_congr fun natural => ?_
    cases natural with
    | none => rfl
    | some natural =>
      dsimp only
      cases natural.intersect contract.range with
      | none => simp only [later]
      | some range =>
        simp only [limited, Bool.and_false, later]
        rfl

/-- The earlier days that decide what is carried over into some of the periods. -/
def historyOf (pivot : Pivot) (periods : List Period) : Option DateRange :=
  if periods.any fun period => period.category.carrySource?.isSome then
    pivot.profile.daysBefore? (yearAround pivot.date).first
  else none

theorem layOut_history {rules : RuleTree} {pivot : Pivot} {laid : Chain}
    (h : layOut rules pivot = .ok laid) : laid.history = historyOf pivot laid.periods := by
  cases on : pivot.profile.contractOn? pivot.date with
  | none =>
    rw [layOut_uncovered h on]
    rfl
  | some contract =>
    obtain ⟨start, -, result, -, rfl⟩ := layOut_ok h on
    cases result with
    | none => rfl
    | some periods => rfl

theorem layOut_of {rules : RuleTree} {pivot : Pivot} {start : Category} {contract : Contract}
    {periods : List Period} (known : rules.category? pivot.category = some start)
    (on : pivot.profile.contractOn? pivot.date = some contract)
    (laid : layPeriods rules pivot contract (rules.pathFrom (rules.head start)).ending false
      (rules.pathFrom (rules.head start)).categories = .ok (some periods)) :
    layOut rules pivot =
      .ok { blank pivot with periods := periods, history := historyOf pivot periods } := by
  simp only [layOut, known, on, laid]
  rfl

/-- Chains with carry-overs look back from the year of the pivot, the others not at all. -/
theorem historyOf_moved {pivot : Pivot} {periods : List Period} {d : Date}
    (year : ∀ q ∈ periods, q.category.carrySource?.isSome = true → d.year = pivot.date.year)
    (name : CategoryName) : historyOf (pivot.moved name d) periods = historyOf pivot periods := by
  unfold historyOf
  cases carries : periods.any fun period => period.category.carrySource?.isSome with
  | false => rfl
  | true =>
    obtain ⟨k, hk, carries⟩ := List.any_eq_true.1 carries
    simp only [Pivot.moved, yearAround_congr (year k hk carries)]

/-- A chain with periods: they lie under one contract, along the one complete path that the requested
category is on. -/
structure LaidAlong (rules : RuleTree) (pivot : Pivot) (contract : Contract) (first : Category)
    (laid : Chain) : Prop where
  on : pivot.profile.contractOn? pivot.date = some contract
  ending : (rules.pathFrom first).ending = .complete
  leads : rules.Leads first (rules.pathFrom first).categories
  top : rules.category? first.name = some first
  alone : rules.predecessor? first.name = none
  requested : ∃ start ∈ (rules.pathFrom first).categories, start.name = pivot.category
  periods : layPeriods rules pivot contract .complete false (rules.pathFrom first).categories =
    .ok (some laid.periods)
  fields : laid = { blank pivot with
    periods := laid.periods
    history := historyOf pivot laid.periods }

theorem laidAlong {rules : RuleTree} (keyed : rules.Keyed) (uniform : rules.Uniform) {pivot : Pivot}
    {laid : Chain} (h : layOut rules pivot = .ok laid) (nonempty : laid.periods ≠ []) :
    ∃ contract first, LaidAlong rules pivot contract first laid := by
  obtain ⟨start, contract, periods, known, on, hresult, rfl⟩ := layOut_filled h nonempty
  have named : start.name = pivot.category := keyed _ _ known
  rw [← named] at known
  have inside : rules.head start ∈ rules.all := RuleTree.headFrom_mem (RuleTree.category?_mem known)
  have complete : (rules.pathFrom (rules.head start)).ending = .complete := by
    apply layPeriods_ending hresult
    intro c hc unlimited
    refine RuleTree.follow_last hc (uniform.final c ?_ unlimited)
    rcases RuleTree.follow_mem hc with rfl | mem
    · exact inside
    · exact mem
  obtain ⟨leads, top, alone, mem⟩ := RuleTree.head_leads keyed known complete
  rw [complete] at hresult
  exact ⟨contract, rules.head start, on, complete, leads, top, alone, ⟨start, mem, named⟩, hresult,
    rfl⟩

namespace LaidAlong

variable {rules : RuleTree} {pivot : Pivot} {contract : Contract} {first : Category} {laid : Chain}

/-- A period of the chain: the part under the contract of what its category spans around the pivot. -/
theorem of_mem (along : LaidAlong rules pivot contract first laid) {p : Period}
    (hp : p ∈ laid.periods) : p.category ∈ (rules.pathFrom first).categories ∧ p.category ∈ rules.all ∧
      ∃ natural, rangeAround pivot contract p.category = .ok (some natural) ∧
        ∀ d, d ∈ p.range ↔ d ∈ natural ∧ d ∈ contract.range := by
  obtain ⟨category, mem, natural, range, around, clipped, rfl⟩ := mem_layPeriods along.periods p hp
  exact ⟨mem, RuleTree.category?_mem (along.leads.known along.top category mem), natural, around,
    mem_of_intersect clipped⟩

theorem agree {β : Type} {f : Category → β} (along : LaidAlong rules pivot contract first laid)
    (step : ∀ a ∈ rules.all, ∀ b ∈ rules.all, a.next = some b.name → f a = f b) {a b : Category}
    (ha : a ∈ (rules.pathFrom first).categories) (hb : b ∈ (rules.pathFrom first).categories) :
    f a = f b :=
  (along.leads.agree along.top step a ha).trans (along.leads.agree along.top step b hb).symm

/-- In a chain with a carry-over all dates of all periods lie in the year of the pivot. -/
theorem year_eq (along : LaidAlong rules pivot contract first laid) (uniform : rules.Uniform)
    {p q : Period} (hp : p ∈ laid.periods) {d : Date} (hd : d ∈ p.range) (hq : q ∈ laid.periods)
    (carries : q.category.carrySource?.isSome = true) : d.year = pivot.date.year := by
  obtain ⟨pathP, -, natural, around, spans⟩ := along.of_mem hp
  obtain ⟨pathQ, -, -⟩ := along.of_mem hq
  apply year_of_rangeAround around ((spans d).1 hd).1
  rw [along.agree uniform.aligned pathP pathQ, Category.grid_of_carries carries]

end LaidAlong

/-- The categories of a chain are those of the rules. -/
theorem category_mem {rules : RuleTree} (keyed : rules.Keyed) (uniform : rules.Uniform) {pivot : Pivot}
    {laid : Chain} (h : layOut rules pivot = .ok laid) {p : Period} (hp : p ∈ laid.periods) :
    p.category ∈ rules.all := by
  obtain ⟨contract, first, along⟩ := laidAlong keyed uniform h (List.ne_nil_of_mem hp)
  exact (along.of_mem hp).2.1

/-- Around every date of the chain and every category of it the same periods are laid out. -/
theorem layOut_moved {rules : RuleTree} (keyed : rules.Keyed) (uniform : rules.Uniform) {pivot : Pivot}
    (disjoint : pivot.profile.Disjoint) {laid : Chain} (h : layOut rules pivot = .ok laid)
    {p : Period} (hp : p ∈ laid.periods) {d : Date} (hd : d ∈ p.range) {q : Period}
    (hq : q ∈ laid.periods) : layOut rules (pivot.moved q.name d) = .ok (laid.moved q.name d) := by
  obtain ⟨contract, first, along⟩ := laidAlong keyed uniform h (List.ne_nil_of_mem hp)
  obtain ⟨pathP, -, natural, around, spans⟩ := along.of_mem hp
  obtain ⟨inside, under⟩ := (spans d).1 hd
  obtain ⟨pathQ, -, -⟩ := along.of_mem hq
  have on : (pivot.moved q.name d).profile.contractOn? d = some contract :=
    disjoint.contractOn? along.on (Contract.contains_iff.2 under)
  have head : rules.head q.category = first :=
    RuleTree.head_eq_of_leads uniform.unshared along.leads along.top along.alone _ pathQ
  have same (c : Category) (hc : c ∈ (rules.pathFrom first).categories) :
      rangeAround (pivot.moved q.name d) contract c = rangeAround pivot contract c :=
    rangeAround_moved around inside (along.agree uniform.aligned hc pathP) q.name
  have final (c : Category) (hc : c ∈ (rules.pathFrom first).categories)
      (unlimited : c.isUnlimited = true) : c.next = none :=
    uniform.final c (RuleTree.category?_mem (along.leads.known along.top c hc)) unlimited
  have periods := (layPeriods_moved along.leads final same false false).trans along.periods
  have history := historyOf_moved (fun k hk carries => along.year_eq uniform hp hd hk carries) q.name
  have known : rules.category? q.name = some q.category := along.leads.known along.top _ pathQ
  have complete := along.ending
  rw [← head] at complete periods
  rw [layOut_of known on (complete ▸ periods), history, along.fields]
  rfl

theorem seedPeriod_moved {rules : RuleTree} (working : WorkingTime) {pivot : Pivot} {d : Date}
    {q : Period} (year : q.category.carrySource?.isSome = true → d.year = pivot.date.year)
    (name : CategoryName) (records : List Absence) :
    seedPeriod rules working (pivot.moved name d) records q =
      seedPeriod rules working pivot records q := by
  unfold seedPeriod
  cases carries : carryOver? rules q with
  | none => rfl
  | some link =>
    obtain ⟨source, month, period, -⟩ := carryOver_eq_some carries
    have same := year (by simp [Category.carrySource?, period])
    simp only [Pivot.moved, same]

/-- Around another date the same records fill the same periods, if it lies in the year from which the
carry-overs look back. -/
theorem fill_moved_of_year {rules : RuleTree} (working : WorkingTime) {pivot : Pivot} {laid : Chain}
    {d : Date}
    (year : ∀ q ∈ laid.periods, q.category.carrySource?.isSome = true → d.year = pivot.date.year)
    (name : CategoryName) (records : List Absence) :
    (fill rules working (pivot.moved name d) (laid.moved name d) records).toOption =
      (fill rules working pivot laid records).toOption.map (·.moved name d) := by
  have seeds : (laid.moved name d).periods.map (seedPeriod rules working (pivot.moved name d) records) =
      laid.periods.map (seedPeriod rules working pivot records) :=
    List.map_congr_left fun q hq => seedPeriod_moved working (year q hq) name records
  have concerns : concerned (laid.moved name d).periods (laid.moved name d).person records =
      concerned laid.periods laid.person records := rfl
  have clashing : clashes (laid.moved name d).periods = clashes laid.periods := rfl
  rw [fill_concerned, fill_concerned, seeds, concerns, clashing]
  cases (concerned laid.periods laid.person records).find? (clashes laid.periods) with
  | some record => rfl
  | none => rfl

/-- Around every date of the chain and every category of it the same records fill the same periods. -/
theorem fill_moved {rules : RuleTree} (keyed : rules.Keyed) (uniform : rules.Uniform)
    (working : WorkingTime) {pivot : Pivot} {laid : Chain} (h : layOut rules pivot = .ok laid)
    {p : Period} (hp : p ∈ laid.periods) {d : Date} (hd : d ∈ p.range) (name : CategoryName)
    (records : List Absence) :
    (fill rules working (pivot.moved name d) (laid.moved name d) records).toOption =
      (fill rules working pivot laid records).toOption.map (·.moved name d) := by
  obtain ⟨contract, first, along⟩ := laidAlong keyed uniform h (List.ne_nil_of_mem hp)
  exact fill_moved_of_year working (fun q hq => along.year_eq uniform hp hd hq) name records

end Chain

end Entitlement
