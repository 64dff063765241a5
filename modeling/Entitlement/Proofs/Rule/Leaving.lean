import Mathlib.Data.List.Find
import Entitlement.Proofs.Rule.Governing

/-!
A rule tree without some of its categories. If no link and no carry-over joins a category that stays to one
that is left out, every walk from a category that stays is the same in the smaller tree.
-/

namespace Entitlement

namespace RuleTree

def without (tree : RuleTree) (out : Category → Bool) : RuleTree :=
  { tree with categories := tree.categories.filter fun _ category => !out category }

variable {tree : RuleTree} {out : Category → Bool}

theorem category?_without (tree : RuleTree) (out : Category → Bool) (name : CategoryName) :
    (tree.without out).category? name = (tree.category? name).filter fun c => !out c := by
  apply Option.ext
  intro c
  rw [Option.filter_eq_some_iff]
  exact OrderedMap.get?_filter_eq_some

theorem category?_without_of_stays {name : CategoryName}
    (stays : ∀ c, tree.category? name = some c → out c = false) :
    (tree.without out).category? name = tree.category? name := by
  rw [category?_without]
  cases found : tree.category? name with
  | none => rfl
  | some c => rw [Option.filter_some, stays c found, Bool.not_false, if_pos rfl]

theorem all_without (tree : RuleTree) (out : Category → Bool) :
    (tree.without out).all = tree.all.filter fun c => !out c := by
  rw [all, all, without, OrderedMap.values, OrderedMap.filter, OrderedMap.values, List.filter_map]
  rfl

theorem categoriesFor_without (tree : RuleTree) (out : Category → Bool) (code : Code) :
    (tree.without out).categoriesFor code = (tree.categoriesFor code).filter fun c => !out c := by
  rw [categoriesFor, categoriesFor, List.filter_filterMap]
  exact List.filterMap_congr fun name _ => category?_without tree out name

/-- Categories that stay are joined to none that is left out: not by a link, and not as the carry-over of its
source. -/
structure Severs (tree : RuleTree) (out : Category → Bool) : Prop where
  linked {a b : Category} : a ∈ tree.all → b ∈ tree.all → a.next = some b.name → out a = out b
  carried {a b : Category} : a ∈ tree.all → b ∈ tree.all → a.carrySource? = some b.name →
    out a = false → out b = false

section Severs

variable (keyed : tree.Keyed) (severs : tree.Severs out)

include severs in
theorem predecessor?_without {c : Category} (known : c ∈ tree.all) (stays : out c = false) :
    (tree.without out).predecessor? c.name = tree.predecessor? c.name := by
  rw [predecessor?, predecessor?, all_without, List.find?_filter]
  apply List.find?_congr
  intro a ha
  by_cases link : a.next = some c.name
  · simp [link, (severs.linked ha known link).trans stays]
  · simp [link]

include keyed severs in
theorem stays_of_next {c s : Category} {next : CategoryName} (known : c ∈ tree.all) (stays : out c = false)
    (link : c.next = some next) (found : tree.category? next = some s) : out s = false := by
  obtain rfl := keyed next s found
  rw [← severs.linked known (category?_mem found) link]
  exact stays

include severs in
/-- The head of the chain of a category that stays is the same, and stays. -/
theorem headFrom_without (visited : List CategoryName) {c : Category} (known : c ∈ tree.all)
    (stays : out c = false) : (tree.without out).headFrom visited c = tree.headFrom visited c ∧
      out (tree.headFrom visited c) = false := by
  induction visited, c using headFrom.induct tree with
  | case1 visited c first =>
    have same := predecessor?_without severs known stays
    rw [headFrom_none first, headFrom_none (same.trans first)]
    exact ⟨rfl, stays⟩
  | case2 visited c previous found old =>
    have same := predecessor?_without severs known stays
    rw [headFrom_some found, headFrom_some (same.trans found), if_pos old, if_pos old]
    exact ⟨rfl, stays⟩
  | case3 visited c previous found fresh ih =>
    have same := predecessor?_without severs known stays
    have link : previous.next = some c.name := by simpa using List.find?_some found
    have before := predecessor?_mem found
    rw [headFrom_some found, headFrom_some (same.trans found), if_neg fresh, if_neg fresh]
    exact ih before ((severs.linked before known link).trans stays)

include keyed severs in
/-- The walk from a category that stays is the same, and all its categories stay. -/
theorem follow_without (visited : List CategoryName) {c : Category} (known : c ∈ tree.all)
    (stays : out c = false) : (tree.without out).follow visited c = tree.follow visited c ∧
      ∀ x ∈ (tree.follow visited c).categories, out x = false := by
  have alone {x : Category} (hx : x ∈ [c]) : out x = false := List.mem_singleton.1 hx ▸ stays
  induction visited, c using follow.induct tree with
  | case1 visited c last =>
    have here (t : RuleTree) : t.follow visited c = ⟨[c], .complete⟩ := by rw [follow, last]
    rw [here, here]
    exact ⟨rfl, fun x hx => alone hx⟩
  | case2 visited c next link unknown =>
    have gone : (tree.without out).category? next = none := by rw [category?_without, unknown]; rfl
    rw [follow_unknown link unknown, follow_unknown link gone]
    exact ⟨rfl, fun x hx => alone hx⟩
  | case3 visited c next link s found old =>
    have still := (category?_without_of_stays fun x hx =>
      stays_of_next keyed severs known stays link hx).trans found
    rw [follow_known link found, follow_known link still, if_pos old, if_pos old]
    exact ⟨rfl, fun x hx => alone hx⟩
  | case4 visited c next link s found fresh ih =>
    have staysNext := stays_of_next keyed severs known stays link found
    have still := (category?_without_of_stays fun x hx =>
      stays_of_next keyed severs known stays link hx).trans found
    obtain ⟨same, all⟩ := ih (category?_mem found) staysNext fun hx => List.mem_singleton.1 hx ▸ staysNext
    rw [follow_known link found, follow_known link still, if_neg fresh, if_neg fresh, same]
    exact ⟨rfl, fun x hx => (List.mem_cons.1 hx).elim (fun here => here ▸ stays) (all x)⟩

include keyed severs in
/-- Around a category that stays the same path is walked, and all its categories stay. -/
theorem pathFrom_head_without {c : Category} (known : c ∈ tree.all) (stays : out c = false) :
    (tree.without out).pathFrom ((tree.without out).head c) = tree.pathFrom (tree.head c) ∧
      ∀ x ∈ (tree.pathFrom (tree.head c)).categories, x ∈ tree.all ∧ out x = false := by
  obtain ⟨sameHead, staysHead⟩ := headFrom_without severs [c.name] known stays
  have knownHead : tree.head c ∈ tree.all := headFrom_mem known
  obtain ⟨same, all⟩ := follow_without keyed severs [(tree.head c).name] knownHead staysHead
  refine ⟨?_, fun x hx => ⟨pathFrom_mem knownHead hx, all x hx⟩⟩
  rw [head, sameHead]
  exact same

end Severs

end RuleTree

end Entitlement
