import Entitlement.Rule.Tree

/-!
Following the links of a rule tree. Links may be missing, shared or cyclic, so both walks, back to
the head of a chain and forward along it, stop before they would visit a name twice; the names not
yet visited bound their length.
-/

namespace Entitlement

namespace RuleTree

/-- The categories of the tree whose names have not been visited. -/
def unvisited (tree : RuleTree) (visited : List CategoryName) : List Category :=
  tree.all.filter fun category => category.name ∉ visited

theorem unvisited_cons_lt {tree : RuleTree} {visited : List CategoryName} {category : Category}
    (known : category ∈ tree.all) (fresh : category.name ∉ visited) :
    (tree.unvisited (category.name :: visited)).length < (tree.unvisited visited).length := by
  have split : tree.unvisited (category.name :: visited) =
      (tree.unvisited visited).filter fun c => c.name ≠ category.name := by
    simp only [unvisited, List.filter_filter, List.mem_cons, not_or, ne_eq, Bool.decide_and]
  rw [split]
  refine List.length_filter_lt_length_iff_exists.2 ⟨category, ?_, by simp⟩
  exact List.mem_filter.2 ⟨known, by simpa using fresh⟩

/-- Goes from a category to its predecessors, as long as they are new. -/
def headFrom (tree : RuleTree) (visited : List CategoryName) (category : Category) : Category :=
  match _h : tree.predecessor? category.name with
  | none => category
  | some previous =>
    if _fresh : previous.name ∈ visited then category
    else tree.headFrom (previous.name :: visited) previous
termination_by (tree.unvisited visited).length
decreasing_by exact unvisited_cons_lt (predecessor?_mem ‹_›) ‹_›

/-- The head of the chain a category belongs to. -/
def head (tree : RuleTree) (category : Category) : Category :=
  tree.headFrom [category.name] category

/-- How a walk along successors ends: at a category without one, at a name the tree does not know,
or back at a category it has visited. -/
inductive PathEnd where
  | complete
  | unknown (category : Category) (next : CategoryName)
  | revisits (category : Category)

/-- The categories met by following successors, each once. -/
structure Path where
  categories : List Category
  ending : PathEnd

/-- Follows successors from a category whose name is already among those visited. -/
def follow (tree : RuleTree) (visited : List CategoryName) (category : Category) : Path :=
  match category.next with
  | none => ⟨[category], .complete⟩
  | some next =>
    match _h : tree.category? next with
    | none => ⟨[category], .unknown category next⟩
    | some successor =>
      if _fresh : successor.name ∈ visited then ⟨[category], .revisits successor⟩
      else
        let rest := tree.follow (successor.name :: visited) successor
        ⟨category :: rest.categories, rest.ending⟩
termination_by (tree.unvisited visited).length
decreasing_by exact unvisited_cons_lt (category?_mem ‹_›) ‹_›

/-- The categories from a given one to the end of its chain. -/
def pathFrom (tree : RuleTree) (category : Category) : Path :=
  tree.follow [category.name] category

end RuleTree

end Entitlement
