import Entitlement.Chain.Build
import Entitlement.Proofs.Chain.Layout
import Entitlement.Proofs.Rule.Leaving
import Entitlement.Replacing.Repair

/-!
Chains under a rule tree without some of its categories. Where what stays is joined to nothing that is left
out, the chain around a category that stays is laid out, filled and repaired in the same way.
-/

namespace Entitlement

namespace Chain

variable {rules : RuleTree} {out : Category → Bool}

def Stays (rules : RuleTree) (out : Category → Bool) (c : Category) : Prop :=
  c ∈ rules.all ∧ out c = false

section Severs

variable (keyed : rules.Keyed) (severs : rules.Severs out)

include keyed severs

/-- What a category that stays carries over is found in both trees. -/
theorem source_without {c : Category} (stays : Stays rules out c) {source : CategoryName}
    (carries : c.carrySource? = some source) :
    (rules.without out).category? source = rules.category? source := by
  apply RuleTree.category?_without_of_stays
  intro origin found
  obtain rfl := keyed source origin found
  exact severs.carried stays.1 (RuleTree.category?_mem found) carries stays.2

theorem check_without {c : Category} (stays : Stays rules out c) :
    check (rules.without out) c = check rules c := by
  unfold check
  cases period : c.period with
  | previousYear source month =>
    have carries : c.carrySource? = some source := by rw [Category.carrySource?, period]
    simp only [checkCarry, source_without keyed severs stays carries]
  | _ => rfl

theorem layPeriods_without {pivot : Pivot} {contract : Contract} {ending : RuleTree.PathEnd} {reached : Bool}
    {categories : List Category} (stay : ∀ c ∈ categories, Stays rules out c) :
    layPeriods (rules.without out) pivot contract ending reached categories =
      layPeriods rules pivot contract ending reached categories := by
  induction categories generalizing reached with
  | nil => rfl
  | cons c rest ih =>
    have later (reached : Bool) : layPeriods (rules.without out) pivot contract ending reached rest =
        layPeriods rules pivot contract ending reached rest :=
      ih fun d hd => stay d (List.mem_cons_of_mem _ hd)
    simp only [layPeriods, check_without keyed severs (stay c List.mem_cons_self), later]

/-- A chain around a category that stays, or around one that is unknown, is laid out alike; all its categories
stay. -/
theorem layOut_without {pivot : Pivot}
    (stays : ∀ c, rules.category? pivot.category = some c → out c = false) :
    layOut (rules.without out) pivot = layOut rules pivot ∧
      ∀ laid, layOut rules pivot = .ok laid → ∀ p ∈ laid.periods, Stays rules out p.category := by
  constructor
  · unfold layOut
    rw [RuleTree.category?_without_of_stays stays]
    cases known : rules.category? pivot.category with
    | none => rfl
    | some start =>
      obtain ⟨path, all⟩ := RuleTree.pathFrom_head_without keyed severs (RuleTree.category?_mem known)
        (stays start known)
      simp only [path, layPeriods_without keyed severs all]
  · intro laid h p hp
    obtain ⟨start, contract, periods, known, -, laid, rfl⟩ := layOut_filled h (List.ne_nil_of_mem hp)
    obtain ⟨c, walked, natural, range, -, -, rfl⟩ := mem_layPeriods laid p hp
    exact (RuleTree.pathFrom_head_without keyed severs (RuleTree.category?_mem known)
      (stays start known)).2 c walked

theorem seedPeriod_without {working : WorkingTime} {pivot : Pivot} {records : List Absence} {p : Period}
    (stays : Stays rules out p.category) : seedPeriod (rules.without out) working pivot records p =
      seedPeriod rules working pivot records p := by
  have same : carryOver? (rules.without out) p = carryOver? rules p := by
    unfold carryOver?
    cases period : p.category.period with
    | previousYear source month =>
      have carries : p.category.carrySource? = some source := by rw [Category.carrySource?, period]
      simp only [source_without keyed severs stays carries]
    | _ => rfl
  simp only [seedPeriod, same]

theorem fill_without {working : WorkingTime} {pivot : Pivot} {laid : Chain} {records : List Absence}
    (stay : ∀ p ∈ laid.periods, Stays rules out p.category) :
    fill (rules.without out) working pivot laid records = fill rules working pivot laid records := by
  have seeded : laid.periods.map (seedPeriod (rules.without out) working pivot records) =
      laid.periods.map (seedPeriod rules working pivot records) :=
    List.map_congr_left fun p hp => seedPeriod_without keyed severs (stay p hp)
  simp only [fill, seeded]

end Severs

/-- The codes that may be written do not depend on the categories. -/
theorem repair_without (out : Category → Bool) (chain : Chain) :
    chain.repair (rules.without out) = chain.repair rules := by
  have same (days : List (Period × PeriodDay)) :
      additions (rules.without out) days = additions rules days := by
    induction days with
    | nil => rfl
    | cons e rest ih =>
      rw [additions, additions, ih]
      rfl
  unfold repair
  rw [same]

end Chain

end Entitlement
