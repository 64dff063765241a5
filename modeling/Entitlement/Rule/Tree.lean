import Entitlement.Ordered.Map
import Entitlement.Rule.Category

/-!
The rule tree: categories by name, the code catalog, and an index from codes to the categories their
records feed. Of several definitions of one name the last is kept; the index remembers the codes of
every definition.
-/

namespace Entitlement

structure RuleTree where
  categories : OrderedMap CategoryName Category
  catalog : OrderedMap Code CodeEntry
  index : OrderedMap Code (OrderedSet CategoryName)

namespace RuleTree

def empty : RuleTree := ⟨∅, ∅, ∅⟩

/-- Adds a name to those filed under a code. -/
def fileUnder (name : CategoryName) (index : OrderedMap Code (OrderedSet CategoryName))
    (code : Code) : OrderedMap Code (OrderedSet CategoryName) :=
  index.insert code (((index.get? code).getD ∅).insert name)

def addCategory (tree : RuleTree) (category : Category) : RuleTree :=
  { tree with
    categories := tree.categories.insert category.name category
    index := category.codes.toList.foldl (fileUnder category.name) tree.index }

def addCode (tree : RuleTree) (entry : CodeEntry) : RuleTree :=
  { tree with catalog := tree.catalog.insert entry.code entry }

/-- The tree of a list of definitions and a list of catalog entries. -/
def ofLists (categories : List Category) (codes : List CodeEntry) : RuleTree :=
  codes.foldl addCode (categories.foldl addCategory empty)

def category? (tree : RuleTree) (name : CategoryName) : Option Category :=
  tree.categories.get? name

/-- All categories, by name. -/
def all (tree : RuleTree) : List Category :=
  tree.categories.values

/-- The categories filed under a code, by name. -/
def categoriesFor (tree : RuleTree) (code : Code) : List Category :=
  ((tree.index.get? code).getD ∅).toList.filterMap tree.category?

def code? (tree : RuleTree) (code : Code) : Option CodeEntry :=
  tree.catalog.get? code

/-- The first category by name whose successor is `name`. -/
def predecessor? (tree : RuleTree) (name : CategoryName) : Option Category :=
  tree.all.find? fun category => category.next = some name

theorem category?_mem {tree : RuleTree} {name : CategoryName} {category : Category}
    (h : tree.category? name = some category) : category ∈ tree.all :=
  List.mem_map.2 ⟨_, OrderedMap.get?_eq_some_iff.1 h, rfl⟩

theorem predecessor?_mem {tree : RuleTree} {name : CategoryName} {category : Category}
    (h : tree.predecessor? name = some category) : category ∈ tree.all :=
  List.mem_of_find?_eq_some h

end RuleTree

end Entitlement
