import Mathlib.Data.List.Basic
import Mathlib.Data.List.Nodup
import Entitlement.Rule.Tree

/-!
A rule tree built from lists. Every category stands under its own name, and the index files a category
under every code of it; under distinct names it files nothing else.
-/

namespace Entitlement

namespace RuleTree

def filed (tree : RuleTree) (code : Code) : OrderedSet CategoryName :=
  (tree.index.get? code).getD ∅

theorem mem_categoriesFor {tree : RuleTree} {code : Code} {category : Category} :
    category ∈ tree.categoriesFor code ↔
      ∃ name ∈ tree.filed code, tree.category? name = some category := by
  rw [categoriesFor, List.mem_filterMap]
  rfl

private theorem fileUnder_fold (name : CategoryName) (codes : List Code)
    (index : OrderedMap Code (OrderedSet CategoryName)) (code : Code) (n : CategoryName) :
    n ∈ ((codes.foldl (fileUnder name) index).get? code).getD ∅ ↔
      n ∈ (index.get? code).getD ∅ ∨ (n = name ∧ code ∈ codes) := by
  induction codes generalizing index with
  | nil => simp
  | cons first rest ih =>
      rw [List.foldl_cons, ih, fileUnder, OrderedMap.get?_insert, List.mem_cons]
      by_cases same : code = first
      · rw [if_pos same, Option.getD_some, OrderedSet.mem_insert, same]
        constructor
        · rintro ((rfl | old) | ⟨rfl, later⟩)
          · exact .inr ⟨rfl, .inl rfl⟩
          · exact .inl old
          · exact .inr ⟨rfl, .inr later⟩
        · rintro (old | ⟨rfl, -⟩)
          · exact .inl (.inr old)
          · exact .inl (.inl rfl)
      · rw [if_neg same]
        simp [same]

theorem filed_addCategory (tree : RuleTree) (category : Category) (code : Code) (n : CategoryName) :
    n ∈ (tree.addCategory category).filed code ↔
      n ∈ tree.filed code ∨ (n = category.name ∧ code ∈ category.codes) :=
  fileUnder_fold category.name category.codes.toList tree.index code n

theorem category?_addCategory (tree : RuleTree) (category : Category) (name : CategoryName) :
    (tree.addCategory category).category? name =
      if name = category.name then some category else tree.category? name :=
  OrderedMap.get?_insert

private theorem addCode_fold (codes : List CodeEntry) (tree : RuleTree) :
    (codes.foldl addCode tree).categories = tree.categories ∧
      (codes.foldl addCode tree).index = tree.index := by
  induction codes generalizing tree with
  | nil => exact ⟨rfl, rfl⟩
  | cons entry rest ih => exact ih (tree.addCode entry)

theorem category?_ofLists (categories : List Category) (codes : List CodeEntry) (name : CategoryName) :
    (ofLists categories codes).category? name =
      (categories.foldl addCategory empty).category? name := by
  rw [category?, ofLists, (addCode_fold codes _).1]
  rfl

theorem filed_ofLists (categories : List Category) (codes : List CodeEntry) (code : Code) :
    (ofLists categories codes).filed code = (categories.foldl addCategory empty).filed code := by
  rw [filed, ofLists, (addCode_fold codes _).2]
  rfl

private theorem category?_fold {categories : List Category} {tree : RuleTree} {name : CategoryName}
    {category : Category} (h : (categories.foldl addCategory tree).category? name = some category) :
    tree.category? name = some category ∨ (category ∈ categories ∧ category.name = name) := by
  induction categories generalizing tree with
  | nil => exact .inl h
  | cons first rest ih =>
      rcases ih h with old | ⟨later, named⟩
      · rw [category?_addCategory] at old
        split at old
        · next same =>
          obtain rfl := Option.some.inj old
          exact .inr ⟨List.mem_cons_self, same.symm⟩
        · exact .inl old
      · exact .inr ⟨List.mem_cons_of_mem _ later, named⟩

/-- A category stands under its own name and is one of those the tree was built from. -/
theorem of_category?_ofLists {categories : List Category} {codes : List CodeEntry}
    {name : CategoryName} {category : Category}
    (h : (ofLists categories codes).category? name = some category) :
    category ∈ categories ∧ category.name = name := by
  rw [category?_ofLists] at h
  rcases category?_fold h with absurd | found
  · cases absurd
  · exact found

private theorem filed_fold (categories : List Category) (tree : RuleTree) (code : Code)
    (n : CategoryName) : n ∈ (categories.foldl addCategory tree).filed code ↔
      n ∈ tree.filed code ∨ ∃ c ∈ categories, n = c.name ∧ code ∈ c.codes := by
  induction categories generalizing tree with
  | nil => simp
  | cons first rest ih =>
      rw [List.foldl_cons, ih, filed_addCategory, List.exists_mem_cons_iff, or_assoc]

theorem mem_filed_ofLists {categories : List Category} {codes : List CodeEntry} {code : Code}
    {n : CategoryName} : n ∈ (ofLists categories codes).filed code ↔
      ∃ c ∈ categories, n = c.name ∧ code ∈ c.codes := by
  rw [filed_ofLists, filed_fold]
  apply or_iff_right
  intro absurd
  exact OrderedSet.mem_empty absurd

/-- The category of a name is filed under each of its codes. -/
theorem mem_categoriesFor_of_codes {categories : List Category} {codes : List CodeEntry} {code : Code}
    {name : CategoryName} {category : Category}
    (h : (ofLists categories codes).category? name = some category) (has : code ∈ category.codes) :
    category ∈ (ofLists categories codes).categoriesFor code := by
  obtain ⟨mem, named⟩ := of_category?_ofLists h
  exact mem_categoriesFor.2 ⟨name, mem_filed_ofLists.2 ⟨category, mem, named.symm, has⟩, h⟩

/-- Under distinct names a category is filed under its own codes alone. -/
theorem codes_of_mem_categoriesFor {categories : List Category} {codes : List CodeEntry} {code : Code}
    {category : Category} (distinct : (categories.map (·.name)).Nodup)
    (h : category ∈ (ofLists categories codes).categoriesFor code) :
    category ∈ categories ∧ code ∈ category.codes ∧
      (ofLists categories codes).category? category.name = some category := by
  obtain ⟨name, filed, known⟩ := mem_categoriesFor.1 h
  obtain ⟨mem, named⟩ := of_category?_ofLists known
  obtain ⟨c, hc, same, has⟩ := mem_filed_ofLists.1 filed
  have : c = category := List.inj_on_of_nodup_map distinct hc mem (same.symm.trans named.symm)
  exact ⟨mem, this ▸ has, named.symm ▸ known⟩

theorem mem_all_ofLists {categories : List Category} {codes : List CodeEntry} {category : Category}
    (h : category ∈ (ofLists categories codes).all) :
    category ∈ categories ∧
      (ofLists categories codes).category? category.name = some category := by
  obtain ⟨⟨name, c⟩, mem, rfl⟩ := List.mem_map.1 h
  have known := OrderedMap.get?_eq_some_iff.2 mem
  have known : (ofLists categories codes).category? name = some c := known
  obtain ⟨found, named⟩ := of_category?_ofLists known
  refine ⟨found, ?_⟩
  rw [named]
  exact known

def Keyed (tree : RuleTree) : Prop :=
  ∀ name category, tree.category? name = some category → category.name = name

theorem keyed_ofLists (categories : List Category) (codes : List CodeEntry) :
    (ofLists categories codes).Keyed :=
  fun _ _ h => (of_category?_ofLists h).2

theorem Keyed.known {tree : RuleTree} (keyed : tree.Keyed) {c : Category} (h : c ∈ tree.all) :
    tree.category? c.name = some c := by
  obtain ⟨⟨name, category⟩, mem, rfl⟩ := List.mem_map.1 h
  have known : tree.category? name = some category := OrderedMap.get?_eq_some_iff.2 mem
  rwa [keyed name category known]

theorem Keyed.eq_of_name {tree : RuleTree} (keyed : tree.Keyed) {a b : Category} (ha : a ∈ tree.all)
    (hb : b ∈ tree.all) (same : a.name = b.name) : a = b := by
  have known := keyed.known ha
  rw [same, keyed.known hb] at known
  exact (Option.some.inj known).symm

/-- Every category stands under its own name and is filed under each of its codes. -/
structure Indexed (tree : RuleTree) : Prop where
  keyed : tree.Keyed
  files {c : Category} {code : Code} : c ∈ tree.all → code ∈ c.codes → c ∈ tree.categoriesFor code

theorem indexed_ofLists (categories : List Category) (codes : List CodeEntry) :
    (ofLists categories codes).Indexed where
  keyed := keyed_ofLists categories codes
  files hc has := mem_categoriesFor_of_codes (mem_all_ofLists hc).2 has

theorem all_of_mem_categoriesFor {tree : RuleTree} {code : Code} {category : Category}
    (h : category ∈ tree.categoriesFor code) : category ∈ tree.all := by
  obtain ⟨name, -, known⟩ := mem_categoriesFor.1 h
  exact category?_mem known

end RuleTree

end Entitlement
