import Entitlement.Proofs.Chain.CarryPair
import Entitlement.Proofs.Chain.Recording
import Entitlement.Proofs.Rule.Governing

/-!
The periods of a chain are those of the governing path of its category. In any rule tree and around any pivot
a layout that has periods follows that path, up to where it ends, and cuts the range of each category to the
contract; it never finds a range outside the contract, except for carry-overs, which are passed over.
-/

namespace Entitlement

namespace Chain

open DateRange

def periodOf? (pivot : Pivot) (contract : Contract) (category : Category) : Option Period :=
  match rangeAround pivot contract category with
  | .ok (some natural) =>
    (natural.intersect contract.range).map (emptyPeriod pivot category natural)
  | _ => none

structure Passes (rules : RuleTree) (pivot : Pivot) (contract : Contract) (category : Category) : Prop where
  checked : check rules category = .ok ()
  meets : ∃ natural, rangeAround pivot contract category = .ok (some natural) ∧
    (natural.intersect contract.range = none → category.carrySource?.isSome = true)

variable {rules : RuleTree} {pivot : Pivot} {contract : Contract}

theorem periodOf?_eq {category : Category} {natural : DateRange}
    (around : rangeAround pivot contract category = .ok (some natural)) :
    periodOf? pivot contract category =
      (natural.intersect contract.range).map (emptyPeriod pivot category natural) := by
  rw [periodOf?, around]

theorem periodOf?_of_meets {category : Category} {natural range : DateRange}
    (around : rangeAround pivot contract category = .ok (some natural))
    (clipped : natural.intersect contract.range = some range) :
    periodOf? pivot contract category = some (emptyPeriod pivot category natural range) := by
  rw [periodOf?_eq around, clipped, Option.map_some]

theorem Passes.of_meets {category : Category} {natural range : DateRange}
    (checked : check rules category = .ok ())
    (around : rangeAround pivot contract category = .ok (some natural))
    (clipped : natural.intersect contract.range = some range) : Passes rules pivot contract category :=
  ⟨checked, natural, around, fun misses => nomatch misses.symm.trans clipped⟩

/-- A period spans what the range of its category shares with the contract. -/
theorem periodOf?_eq_some {category : Category} {p : Period}
    (h : periodOf? pivot contract category = some p) : p.category = category ∧
      ∃ natural, rangeAround pivot contract category = .ok (some natural) ∧
        natural.intersect contract.range = some p.range := by
  unfold periodOf? at h
  split at h
  · next natural around =>
    obtain ⟨range, clipped, rfl⟩ := Option.map_eq_some_iff.1 h
    exact ⟨rfl, natural, around, clipped⟩
  · cases h

/-- A carry-over that passes its check has a limit. -/
theorem limited_of_carries {category : Category} (checked : check rules category = .ok ())
    (carries : category.carrySource?.isSome = true) : category.isUnlimited = false := by
  unfold Category.carrySource? at carries
  split at carries
  · next source month period =>
    obtain ⟨-, -, limited, -⟩ := checkCarry_ok (check_ok checked period)
    exact (limitedUnit?_isSome limited).1
  · cases carries

/-- Periods taken from a walk: they are those of its categories up to the first unlimited one from the
requested one on, a layout can pass each of these, and the walk has come to its end or stops there. -/
structure TakenUpTo (rules : RuleTree) (pivot : Pivot) (contract : Contract) (ending : RuleTree.PathEnd)
    (reached : Bool) (categories : List Category) (periods : List Period) : Prop where
  periods : periods =
    (RuleTree.upTo pivot.category reached categories).filterMap (periodOf? pivot contract)
  passes {c : Category} : c ∈ RuleTree.upTo pivot.category reached categories →
    Passes rules pivot contract c
  ends : ending = .complete ∨
    RuleTree.Stops pivot.category reached (RuleTree.upTo pivot.category reached categories)

/-- A category behind which the walk goes on stands before what is taken from the rest. -/
theorem TakenUpTo.cons {ending : RuleTree.PathEnd} {reached : Bool} {category : Category}
    {rest : List Category} {tail : List Period} (passes : Passes rules pivot contract category)
    (goes : ((reached || category.name = pivot.category) && category.isUnlimited) = false)
    (taken : TakenUpTo rules pivot contract ending (reached || category.name = pivot.category) rest tail) :
    TakenUpTo rules pivot contract ending reached (category :: rest)
      ((periodOf? pivot contract category).toList ++ tail) := by
  have split : RuleTree.upTo pivot.category reached (category :: rest) =
      category :: RuleTree.upTo pivot.category (reached || category.name = pivot.category) rest := by
    rw [RuleTree.upTo, if_neg (Bool.eq_false_iff.1 goes)]
  constructor
  · rw [split, taken.periods, List.filterMap_cons]
    cases periodOf? pivot contract category with
    | none => rfl
    | some p => rfl
  · intro c hc
    rw [split] at hc
    rcases List.mem_cons.1 hc with rfl | later
    · exact passes
    · exact taken.passes later
  · rw [split]
    exact taken.ends.imp_right RuleTree.Stops.cons

/-- An unlimited category from the requested one on is the last that is taken. -/
theorem TakenUpTo.stop {ending : RuleTree.PathEnd} {reached : Bool} {category : Category}
    {rest : List Category} (passes : Passes rules pivot contract category)
    (stops : ((reached || category.name = pivot.category) && category.isUnlimited) = true) :
    TakenUpTo rules pivot contract ending reached (category :: rest)
      (periodOf? pivot contract category).toList := by
  have split : RuleTree.upTo pivot.category reached (category :: rest) = [category] := by
    rw [RuleTree.upTo, if_pos stops]
  constructor
  · rw [split, List.filterMap_cons]
    cases periodOf? pivot contract category with
    | none => rfl
    | some p => rfl
  · intro c hc
    rw [split] at hc
    exact List.mem_singleton.1 hc ▸ passes
  · rw [split]
    exact .inr (.single stops)

/-- A layout with periods has taken them from the walk. -/
theorem layPeriods_taken {ending : RuleTree.PathEnd} {reached : Bool} {categories : List Category}
    {periods : List Period}
    (h : layPeriods rules pivot contract ending reached categories = .ok (some periods)) :
    TakenUpTo rules pivot contract ending reached categories periods := by
  induction categories generalizing reached periods with
  | nil =>
    obtain ⟨complete, same⟩ := layPeriods_nil h
    cases same
    exact ⟨rfl, fun hc => absurd hc List.not_mem_nil, .inl complete⟩
  | cons category rest ih =>
    obtain ⟨checked, ⟨-, missing⟩ | ⟨natural, around, laid⟩⟩ := layPeriods_cons h
    · cases missing
    · rcases laid with ⟨misses, carries, skipped⟩ | ⟨range, clipped, stopped | walked⟩
      · have nothing : periodOf? pivot contract category = none := by
          rw [periodOf?_eq around, misses, Option.map_none]
        have goes : ((reached || category.name = pivot.category) && category.isUnlimited) = false := by
          rw [limited_of_carries checked carries, Bool.and_false]
        have taken := (ih skipped).cons ⟨checked, natural, around, fun _ => carries⟩ goes
        rwa [nothing] at taken
      · obtain ⟨stops, single⟩ := stopped
        cases single
        have taken : TakenUpTo rules pivot contract ending reached (category :: rest)
            (periodOf? pivot contract category).toList := .stop (.of_meets checked around clipped) stops
        rwa [periodOf?_of_meets around clipped] at taken
      · obtain ⟨goes, tail, htail, result⟩ := walked
        cases tail with
        | none => cases result
        | some tail =>
          cases result
          have taken := (ih htail).cons (.of_meets checked around clipped) goes
          rwa [periodOf?_of_meets around clipped] at taken

/-- A walk to the same category lays out the same periods around another pivot, if the categories it sees have
their ranges there too. What stands behind the end of the walk is never seen. -/
theorem layPeriods_congr {pivot pivot' : Pivot} {ending : RuleTree.PathEnd} {reached : Bool}
    {categories : List Category} (named : pivot'.category = pivot.category)
    (initializations : pivot'.profile.initializations = pivot.profile.initializations)
    (around : ∀ c ∈ RuleTree.upTo pivot.category reached categories,
      rangeAround pivot' contract c = rangeAround pivot contract c) :
    layPeriods rules pivot' contract ending reached categories =
      layPeriods rules pivot contract ending reached categories := by
  have emptied : emptyPeriod pivot' = emptyPeriod pivot := by
    funext category natural range
    rw [emptyPeriod, emptyPeriod, initializations]
  induction categories generalizing reached with
  | nil => rfl
  | cons category rest ih =>
    have first : category ∈ RuleTree.upTo pivot.category reached (category :: rest) :=
      List.mem_of_mem_head? RuleTree.head?_upTo
    -- The walk goes on behind every category that is not an unlimited one from the requested one on.
    have later (goes : ((reached || category.name = pivot.category) && category.isUnlimited) = false) :
        layPeriods rules pivot' contract ending (reached || category.name = pivot.category) rest =
          layPeriods rules pivot contract ending (reached || category.name = pivot.category) rest := by
      apply ih
      intro c hc
      apply around
      rw [RuleTree.upTo, if_neg (Bool.eq_false_iff.1 goes)]
      exact List.mem_cons_of_mem _ hc
    rw [layPeriods, layPeriods, around category first, named, emptied]
    cases checked : check rules category with
    | error fault => rfl
    | ok _ =>
      refine bind_congr fun _ => bind_congr fun natural => ?_
      cases natural with
      | none => rfl
      | some natural =>
        dsimp only
        cases natural.intersect contract.range with
        | none =>
          cases carries : category.carrySource?.isNone with
          | true => rfl
          | false =>
            have limited : category.isUnlimited = false :=
              limited_of_carries checked (by simpa [Option.isSome_iff_ne_none] using carries)
            exact later (by rw [limited, Bool.and_false])
        | some range =>
          dsimp only
          split
          · rfl
          · next goes =>
            exact congrArg
              (· >>= fun tail => pure (tail.map (emptyPeriod pivot category natural range :: ·)))
              (later (Bool.eq_false_iff.2 goes))

/-- The categories of a chain are of the rules and have passed their check. -/
theorem checked_of_mem {laid : Chain} (h : layOut rules pivot = .ok laid) {p : Period}
    (hp : p ∈ laid.periods) :
    check rules p.category = .ok () ∧ p.category ∈ rules.all := by
  obtain ⟨start, contract, periods, known, -, follows, rfl⟩ := layOut_filled h (List.ne_nil_of_mem hp)
  have taken := layPeriods_taken follows
  have hp : p ∈ periods := hp
  rw [taken.periods] at hp
  obtain ⟨c, hc, found⟩ := List.mem_filterMap.1 hp
  obtain ⟨rfl, -⟩ := periodOf?_eq_some found
  exact ⟨(taken.passes hc).checked, RuleTree.pathFrom_mem
    (RuleTree.headFrom_mem (RuleTree.category?_mem known))
    (List.IsPrefix.subset RuleTree.upTo_initial hc)⟩

/-- The range of a category around a date under a contract holds the date, unless it carries over. -/
theorem mem_rangeAround (on : contract.contains pivot.date = true) {category : Category}
    (grants : category.carrySource? = none) {natural : DateRange}
    (around : rangeAround pivot contract category = .ok (some natural)) : pivot.date ∈ natural := by
  unfold rangeAround at around
  cases period : category.period with
  | always =>
    simp only [period] at around
    cases around
    exact Contract.contains_iff.1 on
  | year =>
    simp only [period] at around
    cases around
    exact mem_yearAround.2 rfl
  | month =>
    simp only [period] at around
    split at around
    · cases around
    · next window =>
      cases around
      exact (mem_monthAround window).2 ⟨rfl, rfl⟩
  | previousYear source month => simp [Category.carrySource?, period] at grants
  | child ordinal fromYears toYears =>
    simp only [period] at around
    split at around
    · cases around
    · simp only [childRange] at around
      split at around
      · cases around
      · split at around
        · cases around
        · simp only [pure, Except.pure, Except.ok.injEq, Option.ite_none_right_eq_some,
            Option.some.injEq] at around
          exact around.2 ▸ around.1

theorem check_ne_misses (category : Category) (name : CategoryName) :
    check rules category ≠ .error (.malformedRules (.missesContract name)) := by
  intro h
  simp only [check] at h
  split at h
  · cases h
  split at h
  · cases h
  split at h
  · cases h
  split at h
  · simp only [checkCarry] at h
    split at h
    · cases h
    split at h
    · cases h
    split at h
    · cases h
    · cases h
  · cases h

theorem rangeAround_ne_misses (category : Category) (name : CategoryName) :
    rangeAround pivot contract category ≠ .error (.malformedRules (.missesContract name)) := by
  intro h
  simp only [rangeAround] at h
  cases period : category.period with
  | always | year =>
    simp only [period] at h
    cases h
  | month | previousYear _ _ =>
    simp only [period] at h
    split at h
    · cases h
    · cases h
  | child ordinal fromYears toYears =>
    simp only [period] at h
    split at h
    · cases h
    simp only [childRange] at h
    split at h
    · cases h
    split at h
    · cases h
    · cases h

/-- No layout under a contract on the pivot finds a period that does not meet it. -/
theorem layPeriods_ne_misses (on : contract.contains pivot.date = true) {ending : RuleTree.PathEnd}
    {reached : Bool} {categories : List Category} (name : CategoryName) :
    layPeriods rules pivot contract ending reached categories ≠
      .error (.malformedRules (.missesContract name)) := by
  induction categories generalizing reached with
  | nil =>
    intro h
    cases ending with
    | complete | unknown _ _ | revisits _ => cases h
  | cons category rest ih =>
    intro h
    rw [layPeriods] at h
    cases checked : check rules category with
    | error fault =>
      rw [checked] at h
      cases h
      exact check_ne_misses category name checked
    | ok _ =>
      cases around : rangeAround pivot contract category with
      | error fault =>
        rw [checked, around] at h
        cases h
        exact rangeAround_ne_misses category name around
      | ok natural =>
        simp only [checked, around, bind, Except.bind] at h
        cases natural with
        | none => cases h
        | some natural =>
          dsimp only at h
          cases clipped : natural.intersect contract.range with
          | none =>
            rw [clipped] at h
            dsimp only at h
            split at h
            · next grants =>
              obtain ⟨range, meets⟩ := intersect_of_mem
                (mem_rangeAround on (Option.isNone_iff_eq_none.1 grants) around)
                (Contract.contains_iff.1 on)
              rw [clipped] at meets
              cases meets
            · exact ih h
          | some range =>
            rw [clipped] at h
            dsimp only at h
            split at h
            · cases h
            · split at h
              · next error failed =>
                cases h
                exact ih failed
              · cases h

/-- A chain whose periods follow a walk under a contract: they are in order those of its categories, of which
only carry-overs whose window misses the contract have none. -/
structure FollowsWalk (pivot : Pivot) (contract : Contract) (walk : List Category) (chain : Chain) :
    Prop where
  periods : chain.periods = walk.filterMap (periodOf? pivot contract)
  categories {c : Category} {p : Period} : periodOf? pivot contract c = some p → p.category = c
  skipped {c : Category} : c ∈ walk → (periodOf? pivot contract c = none ↔
    ∃ source month window, c.period = .previousYear source month ∧
      throughMonth? pivot.date.year month = some window ∧ window.intersect contract.range = none)
  within {p : Period} : p ∈ chain.periods → contract.range.first ≤ p.range.first ∧
    p.range.first ≤ p.range.last ∧ p.range.last ≤ contract.range.last
  around {p : Period} : p ∈ chain.periods → p.category.carrySource? = none → pivot.date ∈ p.range

/-- An intersection lies within the second range, and its ends are in order. -/
theorem ends_of_intersect {a b c : DateRange} (h : a.intersect b = some c) :
    b.first ≤ c.first ∧ c.first ≤ c.last ∧ c.last ≤ b.last := by
  simp only [intersect, Option.ite_none_right_eq_some, Option.some.injEq] at h
  obtain ⟨ordered, rfl⟩ := h
  exact ⟨Date.le_max_right _ _, ordered, Date.min_le_right _ _⟩

/-- A category that a layout can pass has no period only if it carries over and its window misses the
contract. -/
theorem Passes.periodOf?_eq_none_iff {category : Category} (passes : Passes rules pivot contract category) :
    periodOf? pivot contract category = none ↔
      ∃ source month window, category.period = .previousYear source month ∧
        throughMonth? pivot.date.year month = some window ∧ window.intersect contract.range = none := by
  obtain ⟨natural, around, carries⟩ := passes.meets
  rw [periodOf?_eq around, Option.map_eq_none_iff]
  constructor
  · intro misses
    have carries := carries misses
    unfold Category.carrySource? at carries
    split at carries
    · next source month period =>
      obtain ⟨_, same, window⟩ := rangeAround_previousYear period around
      cases same
      exact ⟨source, month, natural, period, window, misses⟩
    · cases carries
  · rintro ⟨source, month, window, period, found, misses⟩
    obtain ⟨_, same, window'⟩ := rangeAround_previousYear period around
    cases same
    rw [found] at window'
    cases window'
    exact misses

/-- What laying out the chain of a pivot does in a rule tree. -/
structure LaysGoverned (rules : RuleTree) (pivot : Pivot) : Prop where
  /-- The search for the head meets no name twice, nor does the walk from there, so both end within the
  number of categories. -/
  bounded {start : Category} : rules.category? pivot.category = some start →
    (∃ back : List Category, back.head? = some (rules.head start) ∧ back.getLast? = some start ∧
      back.IsChain rules.Precedes ∧ back.length ≤ rules.all.length) ∧
    (rules.pathFrom (rules.head start)).categories.length ≤ rules.all.length
  /-- A chain with periods follows the governing path under the first contract on the pivot. -/
  governed {chain : Chain} : layOut rules pivot = .ok chain → chain.periods ≠ [] →
    ∃ start contract walk, rules.category? pivot.category = some start ∧
      pivot.profile.contractOn? pivot.date = some contract ∧ rules.Governs start walk ∧
      FollowsWalk pivot contract walk chain
  /-- Where a walk from the head comes back before it must stop, there are no periods. -/
  revisits {start : Category} {walk : List Category} {chain : Chain} :
    rules.category? pivot.category = some start → rules.Roams start walk →
    ¬ (walk.map (·.name)).Nodup → layOut rules pivot = .ok chain → chain.periods = []
  /-- No range is ever found outside the contract. -/
  meets {error : CriticalError} {name : CategoryName} : layOut rules pivot = .error error →
    error.fault ≠ .malformedRules (.missesContract name)
  /-- The loop ends as the layout along the path does. -/
  looped : layOut rules pivot = (layOutMarked rules pivot).map Prod.fst
  /-- A carry-over that the loop has marked points at the period of its own category. -/
  marked {chain : Chain} {marks : List CarryMark} {mark : CarryMark} :
    layOutMarked rules pivot = .ok (chain, marks) → mark ∈ marks →
    ∃ p, chain.periods[mark.index]? = some p ∧ p.name = mark.carry ∧
      p.category.period = .previousYear mark.source mark.untilMonth
  /-- Limits set through the marks are those that the categories of the periods ask for. -/
  seeded {chain : Chain} {marks : List CarryMark} : layOutMarked rules pivot = .ok (chain, marks) →
    ∀ (working : WorkingTime) (records : List Absence),
      marks.foldl (seedMarked rules working pivot records) chain.periods =
        chain.periods.map (seedPeriod rules working pivot records)

/-- A chain with periods follows the governing path. -/
theorem follows_governing (keyed : rules.Keyed) {chain : Chain} (h : layOut rules pivot = .ok chain)
    (filled : chain.periods ≠ []) : ∃ start contract walk,
      rules.category? pivot.category = some start ∧
      pivot.profile.contractOn? pivot.date = some contract ∧ rules.Governs start walk ∧
      FollowsWalk pivot contract walk chain := by
  obtain ⟨start, contract, periods, known, on, laid, rfl⟩ := layOut_filled h filled
  have named : start.name = pivot.category := keyed _ _ known
  obtain ⟨same, passes, ends⟩ := layPeriods_taken laid
  simp only [← named] at same passes ends
  have covers : contract.contains pivot.date = true :=
    List.find?_some (p := fun contract : Contract => contract.contains pivot.date) on
  have spans {p : Period} (hp : p ∈ periods) : ∃ natural,
      rangeAround pivot contract p.category = .ok (some natural) ∧
        natural.intersect contract.range = some p.range := by
    rw [same] at hp
    obtain ⟨c, -, found⟩ := List.mem_filterMap.1 hp
    obtain ⟨rfl, natural, around, clipped⟩ := periodOf?_eq_some found
    exact ⟨natural, around, clipped⟩
  refine ⟨start, contract, rules.governing start, known, on,
    RuleTree.governs_governing keyed (named ▸ known) ends, ?_⟩
  exact {
    periods := same
    categories := fun found => (periodOf?_eq_some found).1
    skipped := fun hc => (passes hc).periodOf?_eq_none_iff
    within := fun hp => by
      obtain ⟨natural, -, clipped⟩ := spans hp
      exact ends_of_intersect clipped
    around := fun hp grants => by
      obtain ⟨natural, around, clipped⟩ := spans hp
      exact (mem_of_intersect clipped pivot.date).2
        ⟨mem_rangeAround covers grants around, Contract.contains_iff.1 covers⟩ }

/-- A layout that fails has found a fault on the walk, or does not know the category. -/
theorem layOut_ne_misses {error : CriticalError} (h : layOut rules pivot = .error error)
    (name : CategoryName) : error.fault ≠ .malformedRules (.missesContract name) := by
  unfold layOut at h
  cases known : rules.category? pivot.category with
  | none =>
    rw [known] at h
    cases h
    exact nofun
  | some start =>
    cases on : pivot.profile.contractOn? pivot.date with
    | none =>
      rw [known, on] at h
      cases h
    | some contract =>
      have covers : contract.contains pivot.date = true :=
        List.find?_some (p := fun contract : Contract => contract.contains pivot.date) on
      simp only [known, on] at h
      split at h
      · next fault failed =>
        cases h
        rintro rfl
        exact layPeriods_ne_misses covers name failed
      · cases h
      · cases h

/-- In every rule tree and around every pivot, laying out a chain follows the governing path of the category:
the periods are those of the categories on it, under the first contract on the pivot. -/
theorem layOut_governed (categories : List Category) (codes : List CodeEntry) (pivot : Pivot) :
    LaysGoverned (.ofLists categories codes) pivot := by
  have keyed := RuleTree.keyed_ofLists categories codes
  generalize RuleTree.ofLists categories codes = rules at keyed
  exact {
    bounded := fun {start} known => by
      have here : start ∈ rules.all := RuleTree.category?_mem known
      obtain ⟨back, head, last, linked, distinct, inside⟩ :=
        RuleTree.headFrom_walk keyed (keyed.known here) (List.mem_singleton_self start.name)
      exact ⟨⟨back, head, last, linked, RuleTree.length_le_all distinct fun x hx => (inside x hx).1⟩,
        RuleTree.pathFrom_length_le (RuleTree.headFrom_mem here)⟩
    governed := fun h filled => follows_governing keyed h filled
    revisits := fun {start walk chain} known roams again h => by
      by_contra filled
      obtain ⟨start', -, path, known', -, governs, -⟩ := follows_governing keyed h filled
      obtain rfl := Option.some.inj (known.symm.trans known')
      exact again (governs.nodup_of_roams roams)
    meets := fun h => layOut_ne_misses h _
    looped := by
      rw [layOutMarked_eq]
      cases layOut rules pivot with
      | error error => rfl
      | ok chain => rfl
    marked := fun h hm => by
      obtain ⟨-, rfl⟩ := layOutMarked_ok h
      obtain ⟨i, p, same, found, carry, period⟩ := mem_marksFrom hm
      rw [Nat.zero_add] at same
      exact ⟨p, same ▸ found, carry.symm, period⟩
    seeded := fun h working records => by
      obtain ⟨laid, rfl⟩ := layOutMarked_ok h
      exact foldl_seedMarked working pivot records fun p hp => keyed.known (checked_of_mem laid hp).2 }

end Chain

end Entitlement
