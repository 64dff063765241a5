import Mathlib.Algebra.Module.Submodule.Lattice
import Mathlib.Computability.Primrec.List
import Mathlib.Computability.TuringMachine.StackTuringMachine
import Mathlib.Data.List.Permutation
import Entitlement.Chain.Layout
import Entitlement.Proofs.Calendar.Windows

/-!
What a layout that succeeds says: which checks its categories have passed, and which period each of
them has received. Chains of samples are evaluated with `cbv`, which takes the equations of `List.lookup`,
`Option.isNone` and the like from the library.
-/

namespace Entitlement

namespace Chain

/-- A sequence that succeeds has succeeded in both its parts. -/
theorem bind_ok {ε α β : Type} {x : Except ε α} {f : α → Except ε β} {b : β}
    (h : (x >>= f) = .ok b) : ∃ a, x = .ok a ∧ f a = .ok b := by
  cases x with
  | error e => cases h
  | ok a => exact ⟨a, rfl, h⟩

theorem ok_of_toOption {ε α : Type} {x : Except ε α} {a : α} (h : x.toOption = some a) :
    x = .ok a := by
  cases x with
  | error e => cases h
  | ok b =>
    cases h
    rfl

/-- A carry-over that passes its check draws on a category with a limit in the same unit. -/
theorem checkCarry_ok {rules : RuleTree} {category : Category} {source : CategoryName} {month : Nat}
    (h : checkCarry rules category source month = .ok ()) :
    ∃ origin, rules.category? source = some origin ∧ category.limitedUnit?.isSome = true ∧
      category.limitedUnit? = origin.limitedUnit? ∧ origin.carrySource? = none := by
  simp only [checkCarry] at h
  split at h
  · cases h
  cases known : rules.category? source with
  | none =>
    rw [known] at h
    cases h
  | some origin =>
    rw [known] at h
    dsimp only at h
    split at h
    · next ok =>
      simp only [Bool.and_eq_true, decide_eq_true_eq, Option.isNone_iff_eq_none] at ok
      exact ⟨origin, rfl, ok.1.1, ok.1.2, ok.2⟩
    · cases h

theorem check_ok {rules : RuleTree} {category : Category} (h : check rules category = .ok ())
    {source : CategoryName} {month : Nat} (period : category.period = .previousYear source month) :
    checkCarry rules category source month = .ok () := by
  simp only [check, period] at h
  split at h
  · cases h
  split at h
  · cases h
  split at h
  · cases h
  exact h

theorem limitedUnit?_isSome {category : Category} (h : category.limitedUnit?.isSome = true) :
    category.isUnlimited = false ∧ category.takable.isSome = true := by
  unfold Category.limitedUnit? at h
  cases takable : category.takable with
  | none => simp [takable] at h
  | some t =>
    refine ⟨?_, rfl⟩
    simp only [takable, Option.isSome_map, Option.isSome_filter, Option.any_some] at h
    simpa [Category.isUnlimited, takable] using h

theorem rangeAround_year {pivot : Pivot} {contract : Contract} {category : Category}
    (h : category.period = .year) :
    rangeAround pivot contract category = .ok (some (DateRange.yearAround pivot.date)) := by
  rw [rangeAround, h]
  rfl

theorem rangeAround_previousYear {pivot : Pivot} {contract : Contract} {category : Category}
    {source : CategoryName} {month : Nat} (h : category.period = .previousYear source month)
    {result : Option DateRange} (ok : rangeAround pivot contract category = .ok result) :
    ∃ natural, result = some natural ∧
      DateRange.throughMonth? pivot.date.year month = some natural := by
  simp only [rangeAround, h] at ok
  cases window : DateRange.throughMonth? pivot.date.year month with
  | none =>
    rw [window] at ok
    cases ok
  | some natural =>
    rw [window] at ok
    cases ok
    exact ⟨natural, rfl, rfl⟩

/-- One step of a layout that succeeds: its category has passed the check, and either lacks its child,
or is skipped as a carry-over outside the contract, or receives the part of its range inside the
contract, which ends the walk at an unlimited category once the requested one is reached. -/
theorem layPeriods_cons {rules : RuleTree} {pivot : Pivot} {contract : Contract}
    {ending : RuleTree.PathEnd} {reached : Bool} {category : Category} {rest : List Category}
    {result : Option (List Period)}
    (h : layPeriods rules pivot contract ending reached (category :: rest) = .ok result) :
    check rules category = .ok () ∧
      ((rangeAround pivot contract category = .ok none ∧ result = none) ∨
        ∃ natural, rangeAround pivot contract category = .ok (some natural) ∧
          ((natural.intersect contract.range = none ∧ category.carrySource?.isSome = true ∧
              layPeriods rules pivot contract ending
                (reached || category.name = pivot.category) rest = .ok result) ∨
            ∃ range, natural.intersect contract.range = some range ∧
              (((reached || category.name = pivot.category) && category.isUnlimited) = true ∧
                  result = some [emptyPeriod pivot category natural range] ∨
                ((reached || category.name = pivot.category) && category.isUnlimited) = false ∧
                  ∃ tail, layPeriods rules pivot contract ending
                      (reached || category.name = pivot.category) rest = .ok tail ∧
                    result = tail.map (emptyPeriod pivot category natural range :: ·)))) := by
  rw [layPeriods] at h
  obtain ⟨_, checked, h⟩ := bind_ok h
  refine ⟨checked, ?_⟩
  obtain ⟨around, hrange, h⟩ := bind_ok h
  cases around with
  | none =>
    cases h
    exact .inl ⟨hrange, rfl⟩
  | some natural =>
    refine .inr ⟨natural, hrange, ?_⟩
    dsimp only at h
    cases clipped : natural.intersect contract.range with
    | none =>
      rw [clipped] at h
      dsimp only at h
      split at h
      · cases h
      · next carries =>
        exact .inl ⟨rfl, by simpa [Option.isSome_iff_ne_none] using carries, h⟩
    | some range =>
      rw [clipped] at h
      refine .inr ⟨range, rfl, ?_⟩
      dsimp only at h
      split at h
      · next stops =>
        cases h
        exact .inl ⟨stops, rfl⟩
      · next goes =>
        obtain ⟨tail, htail, h⟩ := bind_ok h
        cases h
        exact .inr ⟨Bool.eq_false_iff.2 goes, tail, htail, rfl⟩

/-- A walk that succeeds has come to the end of its path. -/
theorem layPeriods_nil {rules : RuleTree} {pivot : Pivot} {contract : Contract}
    {ending : RuleTree.PathEnd} {reached : Bool} {result : Option (List Period)}
    (h : layPeriods rules pivot contract ending reached [] = .ok result) :
    ending = .complete ∧ result = some [] := by
  rw [layPeriods] at h
  obtain ⟨_, finished, h⟩ := bind_ok h
  cases h
  cases ending with
  | complete => exact ⟨rfl, rfl⟩
  | unknown category next => cases finished
  | revisits category => cases finished

/-- The periods of a walk follow its categories, some of which they may skip. -/
theorem layPeriods_sublist {rules : RuleTree} {pivot : Pivot} {contract : Contract}
    {ending : RuleTree.PathEnd} {reached : Bool} {categories : List Category} {periods : List Period}
    (h : layPeriods rules pivot contract ending reached categories = .ok (some periods)) :
    (periods.map (·.category)).Sublist categories := by
  induction categories generalizing reached periods with
  | nil =>
    cases (layPeriods_nil h).2
    exact List.Sublist.refl _
  | cons category rest ih =>
    obtain ⟨-, ⟨-, missing⟩ | ⟨natural, -, ⟨-, -, skipped⟩ | ⟨range, -, stopped | walked⟩⟩⟩ :=
      layPeriods_cons h
    · cases missing
    · exact (ih skipped).cons category
    · cases stopped.2
      exact (List.nil_sublist rest).cons_cons category
    · obtain ⟨-, tail, htail, result⟩ := walked
      cases tail with
      | none => cases result
      | some tail =>
        cases result
        exact (ih htail).cons_cons category

/-- Every period of a walk is the empty period of one of its categories, and spans what the range of
the category around the pivot shares with the contract. -/
theorem mem_layPeriods {rules : RuleTree} {pivot : Pivot} {contract : Contract}
    {ending : RuleTree.PathEnd} {reached : Bool} {categories : List Category} {periods : List Period}
    (h : layPeriods rules pivot contract ending reached categories = .ok (some periods)) :
    ∀ p ∈ periods, ∃ category ∈ categories, ∃ natural range,
      rangeAround pivot contract category = .ok (some natural) ∧
        natural.intersect contract.range = some range ∧
          p = emptyPeriod pivot category natural range := by
  induction categories generalizing reached periods with
  | nil =>
      obtain ⟨-, empty⟩ := layPeriods_nil h
      cases empty
      exact fun p hp => absurd hp List.not_mem_nil
  | cons category rest ih =>
      have later {reached : Bool} {tail : List Period}
          (h : layPeriods rules pivot contract ending reached rest = .ok (some tail)) {p : Period}
          (hp : p ∈ tail) : ∃ c ∈ category :: rest, ∃ natural range,
            rangeAround pivot contract c = .ok (some natural) ∧
              natural.intersect contract.range = some range ∧
                p = emptyPeriod pivot c natural range := by
        obtain ⟨c, hc, found⟩ := ih h p hp
        exact ⟨c, List.mem_cons_of_mem _ hc, found⟩
      obtain ⟨-, ⟨-, missing⟩ | ⟨natural, around, ⟨-, -, skipped⟩ | ⟨range, clipped, stopped | walked⟩⟩⟩ :=
        layPeriods_cons h
      · cases missing
      · exact fun p hp => later skipped hp
      · obtain ⟨-, single⟩ := stopped
        cases single
        intro p hp
        rw [List.mem_singleton] at hp
        exact ⟨category, List.mem_cons_self, natural, range, around, clipped, hp⟩
      · obtain ⟨-, tail, htail, result⟩ := walked
        cases tail with
        | none => cases result
        | some tail =>
          cases result
          intro p hp
          rcases List.mem_cons.1 hp with rfl | hp
          · exact ⟨category, List.mem_cons_self, natural, range, around, clipped, rfl⟩
          · exact later htail hp

/-- A layout under a contract that succeeds: it finds a child missing, or it has the periods of the
path from the head of the requested category. -/
theorem layOut_ok {rules : RuleTree} {pivot : Pivot} {chain : Chain} {contract : Contract}
    (h : layOut rules pivot = .ok chain) (on : pivot.profile.contractOn? pivot.date = some contract) :
    ∃ start, rules.category? pivot.category = some start ∧ ∃ result,
      layPeriods rules pivot contract (rules.pathFrom (rules.head start)).ending false
          (rules.pathFrom (rules.head start)).categories = .ok result ∧
        chain = match result with
          | none => { blank pivot with childIsMissing := true }
          | some periods => { blank pivot with
              periods := periods
              history := if periods.any fun period => period.category.carrySource?.isSome then
                pivot.profile.daysBefore? (DateRange.yearAround pivot.date).first else none } := by
  unfold layOut at h
  cases known : rules.category? pivot.category with
  | none =>
    rw [known] at h
    cases h
  | some start =>
    refine ⟨start, rfl, ?_⟩
    simp only [known, on] at h
    cases laid : layPeriods rules pivot contract (rules.pathFrom (rules.head start)).ending false
        (rules.pathFrom (rules.head start)).categories with
    | error fault =>
      rw [laid] at h
      cases h
    | ok result =>
      rw [laid] at h
      refine ⟨result, rfl, ?_⟩
      cases result with
      | none => exact (Except.ok.inj h).symm
      | some periods => exact (Except.ok.inj h).symm

/-- Without a contract on the pivot the chain is blank. -/
theorem layOut_uncovered {rules : RuleTree} {pivot : Pivot} {chain : Chain}
    (h : layOut rules pivot = .ok chain) (off : pivot.profile.contractOn? pivot.date = none) :
    chain = blank pivot := by
  unfold layOut at h
  cases known : rules.category? pivot.category with
  | none =>
    rw [known] at h
    cases h
  | some start =>
    simp only [known, off] at h
    exact (Except.ok.inj h).symm

/-- A layout with periods is made under a contract on the pivot: it has the periods of the path from the head
of the requested category. -/
theorem layOut_filled {rules : RuleTree} {pivot : Pivot} {chain : Chain}
    (h : layOut rules pivot = .ok chain) (filled : chain.periods ≠ []) :
    ∃ start contract periods, rules.category? pivot.category = some start ∧
      pivot.profile.contractOn? pivot.date = some contract ∧
      layPeriods rules pivot contract (rules.pathFrom (rules.head start)).ending false
        (rules.pathFrom (rules.head start)).categories = .ok (some periods) ∧
      chain = { blank pivot with
        periods := periods
        history := if periods.any fun period => period.category.carrySource?.isSome then
          pivot.profile.daysBefore? (DateRange.yearAround pivot.date).first else none } := by
  cases on : pivot.profile.contractOn? pivot.date with
  | none =>
    rw [layOut_uncovered h on] at filled
    exact absurd rfl filled
  | some contract =>
    obtain ⟨start, known, result, laid, rfl⟩ := layOut_ok h on
    cases result with
    | none => exact absurd rfl filled
    | some periods => exact ⟨start, contract, periods, known, rfl, laid, rfl⟩

/-- A laid out chain is blank apart from its periods, the days that they look back on, and a missing child. -/
theorem layOut_blank {rules : RuleTree} {pivot : Pivot} {chain : Chain}
    (h : layOut rules pivot = .ok chain) : chain = { blank pivot with
      periods := chain.periods
      history := chain.history
      childIsMissing := chain.childIsMissing } := by
  cases on : pivot.profile.contractOn? pivot.date with
  | none => rw [layOut_uncovered h on]
  | some contract =>
    obtain ⟨start, -, result, -, rfl⟩ := layOut_ok h on
    cases result with
    | none => rfl
    | some periods => rfl

theorem category_layOut {rules : RuleTree} {pivot : Pivot} {chain : Chain}
    (h : layOut rules pivot = .ok chain) : chain.category = pivot.category :=
  congrArg Chain.category (layOut_blank h)

/-- Every period of a laid out chain is an empty one, and spans what the range of its category around the
pivot shares with a contract. -/
theorem mem_layOut {rules : RuleTree} {pivot : Pivot} {chain : Chain}
    (h : layOut rules pivot = .ok chain) {p : Period} (hp : p ∈ chain.periods) :
    ∃ contract natural range, rangeAround pivot contract p.category = .ok (some natural) ∧
      natural.intersect contract.range = some range ∧
        p = emptyPeriod pivot p.category natural range := by
  obtain ⟨start, contract, periods, -, -, laid, rfl⟩ := layOut_filled h (List.ne_nil_of_mem hp)
  obtain ⟨category, -, natural, range, around, clipped, rfl⟩ := mem_layPeriods laid p hp
  exact ⟨contract, natural, range, around, clipped, rfl⟩

/-- A laid out chain is the person's, has found nothing and has no participants yet, and its periods are
empty. -/
theorem layOut_empty {rules : RuleTree} {pivot : Pivot} {chain : Chain}
    (h : layOut rules pivot = .ok chain) : chain.person = pivot.person ∧ chain.findings = ∅ ∧
      chain.participants = ∅ ∧ ∀ p ∈ chain.periods, ∃ category natural range,
        p = emptyPeriod pivot category natural range := by
  refine ⟨congrArg person (layOut_blank h), congrArg findings (layOut_blank h),
    congrArg participants (layOut_blank h), fun p hp => ?_⟩
  obtain ⟨-, natural, range, -, -, empty⟩ := mem_layOut h hp
  exact ⟨p.category, natural, range, empty⟩

/-- A chain that misses a child has no periods. -/
theorem layOut_childMissing {rules : RuleTree} {pivot : Pivot} {chain : Chain}
    (h : layOut rules pivot = .ok chain) (missing : chain.childIsMissing = true) :
    chain.periods = [] := by
  refine Classical.byContradiction fun filled => ?_
  obtain ⟨start, contract, periods, -, -, -, rfl⟩ := layOut_filled h filled
  cases missing

theorem layOut_fresh {rules : RuleTree} {pivot : Pivot} {chain : Chain}
    (h : layOut rules pivot = .ok chain) : chain.person = pivot.person ∧ chain.findings = ∅ ∧
      ∀ p ∈ chain.periods, p.days = ∅ := by
  obtain ⟨person, findings, -, periods⟩ := layOut_empty h
  refine ⟨person, findings, fun p hp => ?_⟩
  obtain ⟨category, natural, range, rfl⟩ := periods p hp
  rfl

end Chain

end Entitlement
