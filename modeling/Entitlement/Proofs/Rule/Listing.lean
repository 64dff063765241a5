import Mathlib.Data.List.Basic
import Entitlement.Proofs.Ordered.Filling
import Entitlement.Proofs.Rule.Index

/-!
Which categories are listed under a code. Of several definitions of one name the last is kept, and the kept
one is listed under the codes of all of them; so the listing is exact just where no definition has a code that
the kept one of its name lacks.
-/

namespace Entitlement

namespace RuleTree

open Ordered

def kept (definitions : List Category) (name : CategoryName) : Option Category :=
  (definitions.filter fun d => d.name = name).getLast?

theorem mem_of_kept {definitions : List Category} {name : CategoryName} {c : Category}
    (h : kept definitions name = some c) : c ∈ definitions ∧ c.name = name := by
  obtain ⟨mem, named⟩ := List.mem_filter.1 (List.mem_of_getLast? h)
  exact ⟨mem, by simpa using named⟩

/-- A later definition goes over an earlier one, so the tree knows the last. -/
theorem category?_ofLists_eq_kept (definitions : List Category) (entries : List CodeEntry)
    (name : CategoryName) : (ofLists definitions entries).category? name = kept definitions name := by
  have run (tree : RuleTree) : (definitions.foldl addCategory tree).categories =
      tree.categories.insertMany (definitions.map fun d => (d.name, d)) := by
    induction definitions generalizing tree with
    | nil => rfl
    | cons d rest ih => exact ih (tree.addCategory d)
  calc (ofLists definitions entries).category? name
      = (OrderedMap.ofList (definitions.map fun d => (d.name, d))).get? name := by
        rw [category?_ofLists, category?, run]
        rfl
    _ = (kept definitions name).map id := by
        rw [OrderedMap.get?_ofList, List.filter_map, List.getLast?_map, Option.map_map]
        rfl
    _ = kept definitions name := Option.map_id_apply

/-- Categories found under ascending names ascend by name. -/
theorem Keyed.pairwise_filterMap {tree : RuleTree} (keyed : tree.Keyed) {names : List CategoryName}
    (ascending : names.Pairwise fun a b => before a b) :
    (names.filterMap tree.category?).Pairwise fun a b => before a.name b.name := by
  refine List.Pairwise.filterMap tree.category? (fun n m first a ha b hb => ?_) ascending
  rwa [keyed n a ha, keyed m b hb]

theorem Keyed.pairwise_all {tree : RuleTree} (keyed : tree.Keyed) :
    tree.all.Pairwise fun a b => before a.name b.name := by
  refine List.pairwise_map.2 (tree.categories.ascending.imp_of_mem fun {p q} hp hq first => ?_)
  rwa [keyed p.1 p.2 (OrderedMap.get?_eq_some_iff.2 hp), keyed q.1 q.2 (OrderedMap.get?_eq_some_iff.2 hq)]

variable {definitions : List Category} {entries : List CodeEntry} {code : Code} {c : Category}

theorem mem_all_iff_kept : c ∈ (ofLists definitions entries).all ↔ kept definitions c.name = some c := by
  rw [← category?_ofLists_eq_kept definitions entries]
  exact ⟨fun h => (mem_all_ofLists h).2, category?_mem⟩

theorem mem_categoriesFor_iff_kept : c ∈ (ofLists definitions entries).categoriesFor code ↔
    kept definitions c.name = some c ∧ ∃ d ∈ definitions, d.name = c.name ∧ code ∈ d.codes := by
  rw [mem_categoriesFor]
  constructor
  · rintro ⟨name, filed, known⟩
    obtain ⟨d, hd, rfl, has⟩ := mem_filed_ofLists.1 filed
    rw [category?_ofLists_eq_kept] at known
    have named := (mem_of_kept known).2
    exact ⟨named ▸ known, d, hd, named.symm, has⟩
  · rintro ⟨known, d, hd, named, has⟩
    refine ⟨c.name, mem_filed_ofLists.2 ⟨d, hd, named.symm, has⟩, ?_⟩
    rwa [category?_ofLists_eq_kept]

/-- The kept categories that are listed under a code stand in the order of their names, each once. They are
those of whose definitions one has the code, be it one that was replaced. These are exactly the kept ones
that have the code themselves just if no definition has it that the kept one of its name lacks. -/
theorem listing_of_definitions (definitions : List Category) (entries : List CodeEntry) (code : Code) :
    ((ofLists definitions entries).categoriesFor code).Pairwise (fun a b => before a.name b.name) ∧
      (∀ c, c ∈ (ofLists definitions entries).categoriesFor code ↔
        kept definitions c.name = some c ∧ ∃ d ∈ definitions, d.name = c.name ∧ code ∈ d.codes) ∧
      ((ofLists definitions entries).categoriesFor code =
          ((ofLists definitions entries).all.filter fun c => c.codes.contains code) ↔
        ∀ d ∈ definitions, code ∈ d.codes → ∀ c, kept definitions d.name = some c → code ∈ c.codes) := by
  have keyed := keyed_ofLists definitions entries
  have listed : ((ofLists definitions entries).categoriesFor code).Pairwise
      fun a b => before a.name b.name := keyed.pairwise_filterMap (OrderedSet.ascending _)
  have mem_exact (c : Category) :
      (c ∈ (ofLists definitions entries).all.filter fun c => c.codes.contains code) ↔
        kept definitions c.name = some c ∧ code ∈ c.codes := by
    rw [List.mem_filter, mem_all_iff_kept, OrderedSet.contains_iff]
  refine ⟨listed, fun c => mem_categoriesFor_iff_kept, fun exact d hd has c known => ?_,
    fun current => ?_⟩
  · have named := (mem_of_kept known).2
    have held : c ∈ (ofLists definitions entries).categoriesFor code :=
      mem_categoriesFor_iff_kept.2 ⟨named ▸ known, d, hd, named.symm, has⟩
    rw [exact] at held
    exact ((mem_exact c).1 held).2
  · refine list_eq_of_mem_iff (fun first => by simp [asymm first]) listed
      (keyed.pairwise_all.filter _) fun c => ?_
    rw [mem_categoriesFor_iff_kept, mem_exact]
    refine and_congr_right fun known => ⟨?_, fun has => ⟨c, (mem_of_kept known).1, rfl, has⟩⟩
    rintro ⟨d, hd, named, has⟩
    exact current d hd has c (named ▸ known)

def sampleRedefined : List Category :=
  [⟨"LEAVE", "", .programmed, .year, some ⟨.units, .ofList ["VAC"], 100⟩, none, none, false, false⟩,
    ⟨"LEAVE", "", .programmed, .year, some ⟨.units, .ofList ["HOL"], 100⟩, none, none, false, false⟩]

/-- The code that the later definition has dropped still leads to it. -/
theorem dropped_code_listed : ¬ ∀ (definitions : List Category) (entries : List CodeEntry) (code : Code),
    (ofLists definitions entries).categoriesFor code =
      (ofLists definitions entries).all.filter fun c => c.codes.contains code := by
  intro exact
  have listed : ((ofLists sampleRedefined []).categoriesFor "VAC").map (·.name) = ["LEAVE"] := by decide
  rw [exact] at listed
  exact absurd listed (by decide)

end RuleTree

end Entitlement
