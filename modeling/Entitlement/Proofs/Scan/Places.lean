import Entitlement.Proofs.Replacing.Carrying
import Entitlement.Proofs.Rule.Governing
import Entitlement.Proofs.Scan.Sites

/-!
Where the periods of a chain around a record lie, whatever the rules: in categories on the walk from the head
of the requested one, and under a contract of the person.
-/

namespace Entitlement

namespace Chain

/-- A laid out period is on the walk from the head of the requested category, and under a contract. -/
theorem mem_layOut_walk {rules : RuleTree} {pivot : Pivot} {laid : Chain}
    (h : layOut rules pivot = .ok laid) {p : Period} (hp : p ∈ laid.periods) :
    (∃ start, rules.category? pivot.category = some start ∧
      p.category ∈ (rules.pathFrom (rules.head start)).categories) ∧
      ∃ contract ∈ pivot.profile.contracts, ∀ d ∈ p.range, contract.contains d = true := by
  obtain ⟨start, contract, periods, known, on, laid, rfl⟩ := layOut_filled h (List.ne_nil_of_mem hp)
  obtain ⟨category, walked, natural, range, -, clipped, rfl⟩ := mem_layPeriods laid p hp
  refine ⟨⟨start, known, walked⟩, contract, List.mem_of_find?_eq_some on, fun d inside => ?_⟩
  exact Contract.contains_iff.2 ((DateRange.mem_of_intersect clipped d).1 inside).2

end Chain

namespace ScanContext

variable {context : ScanContext} {scope : ScanScope}

def OnWalk (context : ScanContext) (name : CategoryName) (category : Category) : Prop :=
  ∃ start, context.rules.category? name = some start ∧
    category ∈ (context.rules.pathFrom (context.rules.head start)).categories

theorem OnWalk.known {name : CategoryName} {category : Category} (h : context.OnWalk name category) :
    category ∈ context.rules.all := by
  obtain ⟨start, found, walked⟩ := h
  exact RuleTree.pathFrom_mem (RuleTree.headFrom_mem (RuleTree.category?_mem found)) walked

/-- The periods of the chain around a record are on the walk of its category and under a contract. -/
theorem place_of_chainAround {record : Absence} {name : CategoryName} {ledger : Ledger} {chain : Chain}
    (built : context.chainAround scope record name ledger = .ok chain) {s : Period}
    (hs : s ∈ chain.periods) : context.OnWalk name s.category ∧
      ∃ contract ∈ scope.profile.contracts, ∀ d ∈ s.range, contract.contains d = true := by
  obtain ⟨laid, here, filled⟩ := chainAround_ok built
  obtain ⟨-, -, places⟩ := Chain.fill_keeps filled
  obtain ⟨p, hp, place⟩ := Chain.mem_of_places places hs
  obtain ⟨category, range⟩ := Prod.mk.inj place
  obtain ⟨walk, contract, mem, under⟩ := Chain.mem_layOut_walk here hp
  exact ⟨category ▸ walk, contract, mem, fun d inside => under d (range ▸ inside)⟩

/-- A record that the repair of the chain around a record may touch: its date is covered, and its code is one
that an automatic category on the walk replaces with. -/
theorem touched_of_chainAround {record : Absence} {name : CategoryName} {ledger : Ledger} {chain : Chain}
    (built : context.chainAround scope record name ledger = .ok chain) {a : Absence}
    (touched : chain.Replaceable a) : scope.isCovered a = true ∧ ∃ category,
      context.OnWalk name category ∧ category.automatic = true ∧ category.replaces a.code = true := by
  obtain ⟨-, s, hs, automatic, replaces⟩ := touched
  obtain ⟨inside, replaces⟩ := Bool.and_eq_true_iff.1 replaces
  obtain ⟨walk, contract, mem, under⟩ := place_of_chainAround built hs
  exact ⟨List.any_eq_true.2 ⟨contract, mem, under _ (Chain.mem_range_of_covers inside)⟩,
    s.category, walk, automatic, replaces⟩

end ScanContext

end Entitlement
