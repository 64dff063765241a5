import Mathlib.Data.List.Nodup
import Entitlement.Ordered.Map

/-!
Maps filled from lists. Of several entries under one key the last one stays; so listing such a map gives the last
of the entries of each key, in the order of the keys, and there is only one such list. A list that is sorted by
keys that differ is what it gives itself.
-/

namespace Entitlement

open Ordered

/-- A list holds, of each key that occurs in a source, the last of its entries, in the order of the keys. -/
structure KeepsLast {α κ : Type} [Ordered κ] [DecidableEq κ] (key : α → κ) (source kept : List α) : Prop where
  sorted : kept.Pairwise fun a b => before (key a) (key b) = true
  mem {a : α} : a ∈ kept ↔ (source.filter fun b => key b = key a).getLast? = some a

namespace KeepsLast

variable {α κ : Type} [Ordered κ] [DecidableEq κ] {key : α → κ} {source kept other : List α}

theorem unique (keeps : KeepsLast key source kept) (others : KeepsLast key source other) : kept = other :=
  list_eq_of_mem_iff (fun first => by simp [asymm first]) keeps.sorted others.sorted
    fun _ => keeps.mem.trans others.mem.symm

/-- Entries sorted by keys that differ are each the last of their key. -/
theorem of_sorted (sorted : source.Pairwise fun a b => before (key a) (key b) = true) :
    KeepsLast key source source where
  sorted := sorted
  mem {a} := by
    have distinct : (source.map key).Nodup := List.pairwise_map.2 (sorted.imp ne_of_before)
    constructor
    · intro mem
      have found : a ∈ source.filter fun b => key b = key a := List.mem_filter.2 ⟨mem, decide_eq_true rfl⟩
      obtain ⟨last, h⟩ := Option.ne_none_iff_exists'.1
        (mt List.getLast?_eq_none_iff.1 (List.ne_nil_of_mem found))
      obtain ⟨here, same⟩ := List.mem_filter.1 (List.mem_of_getLast? h)
      rw [h, List.inj_on_of_nodup_map distinct here mem (of_decide_eq_true same)]
    · exact fun last => (List.mem_filter.1 (List.mem_of_getLast? last)).1

/-- Keeping the last entries changes a list just if it is not sorted by keys that differ. -/
theorem eq_source_iff (keeps : KeepsLast key source kept) :
    kept = source ↔ source.Pairwise fun a b => before (key a) (key b) = true :=
  ⟨fun same => same ▸ keeps.sorted, fun sorted => keeps.unique (of_sorted sorted)⟩

end KeepsLast

namespace OrderedMap

variable {κ ν : Type} [Ordered κ] [DecidableEq κ]

/-- Of the entries of a key that a map is filled with, the last stays, over what was there before. -/
theorem get?_insertMany (l : List (κ × ν)) (m : OrderedMap κ ν) (k : κ) : (m.insertMany l).get? k =
    ((l.filter fun e => e.1 = k).getLast?.map (·.2)).or (m.get? k) := by
  induction l generalizing m with
  | nil => rfl
  | cons e rest ih =>
    have step : m.insertMany (e :: rest) = (m.insert e.1 e.2).insertMany rest := rfl
    rw [step, ih, get?_insert]
    by_cases here : e.1 = k
    · rw [List.filter_cons_of_pos (by simpa using here), List.getLast?_cons, if_pos here.symm]
      cases (rest.filter fun e => e.1 = k).getLast? with
      | none => rfl
      | some last => rfl
    · rw [List.filter_cons_of_neg (by simpa using here), if_neg (Ne.symm here)]

theorem get?_ofList (l : List (κ × ν)) (k : κ) :
    (ofList l).get? k = (l.filter fun e => e.1 = k).getLast?.map (·.2) :=
  (get?_insertMany l empty k).trans Option.or_none

/-- What a map filled from a list holds stands in the list. -/
theorem mem_of_get?_ofList {l : List (κ × ν)} {k : κ} {v : ν} (h : (ofList l).get? k = some v) :
    (k, v) ∈ l := by
  rw [get?_ofList, Option.map_eq_some_iff] at h
  obtain ⟨⟨k', v'⟩, last, rfl⟩ := h
  obtain ⟨mem, same⟩ := List.mem_filter.1 (List.mem_of_getLast? last)
  obtain rfl := of_decide_eq_true same
  exact mem

/-- Every key of a list that a map was filled from is in the map. -/
theorem isSome_get?_ofList {l : List (κ × ν)} {e : κ × ν} (h : e ∈ l) :
    ((ofList l).get? e.1).isSome = true := by
  rw [get?_ofList, Option.isSome_map, List.getLast?_isSome]
  exact List.ne_nil_of_mem (List.mem_filter.2 ⟨h, decide_eq_true rfl⟩)

section Tables

/-! Tables that are filled with the entries of things, each of which can be read off its entry again. -/

variable {α : Type} (entry : α → κ × ν) {back : κ × ν → α} (inverse : ∀ a, back (entry a) = a)

include inverse

/-- What such a table holds under the key of a thing is the last thing with that key. -/
theorem mem_ofList_entries {l : List α} {a : α} : entry a ∈ (ofList (l.map entry)).toList ↔
    (l.filter fun b => (entry b).1 = (entry a).1).getLast? = some a := by
  have listed : entry a ∈ (ofList (l.map entry)).toList ↔
      (ofList (l.map entry)).get? (entry a).1 = some (entry a).2 := get?_eq_some_iff.symm
  rw [listed, get?_ofList, List.filter_map, List.getLast?_map, Option.map_map, Option.map_eq_some_iff]
  constructor
  · rintro ⟨b, last, value⟩
    have same := of_decide_eq_true (List.mem_filter.1 (List.mem_of_getLast? last)).2
    have equal : entry b = entry a := Prod.ext same value
    have found : b = a := by rw [← inverse b, equal, inverse a]
    exact found ▸ last
  · exact fun last => ⟨a, last, rfl⟩

/-- Every entry of such a table is that of the thing that is read off it. -/
theorem entry_back {l : List α} {e : κ × ν} (he : e ∈ (ofList (l.map entry)).toList) : entry (back e) = e := by
  have mem : e ∈ l.map entry := mem_of_get?_ofList (get?_eq_some_iff.2 he)
  obtain ⟨a, -, rfl⟩ := List.mem_map.1 mem
  rw [inverse]

/-- Listing such a table gives the last things of each key. -/
theorem keepsLast_entries (l : List α) :
    KeepsLast (fun a => (entry a).1) l ((ofList (l.map entry)).toList.map back) where
  sorted := by
    refine List.pairwise_map.2 ((ofList (l.map entry)).ascending.imp_of_mem fun {p q} hp hq first => ?_)
    rw [entry_back entry inverse hp, entry_back entry inverse hq]
    exact first
  mem {a} := by
    rw [← mem_ofList_entries entry inverse, List.mem_map]
    constructor
    · rintro ⟨e, he, rfl⟩
      rwa [entry_back entry inverse he]
    · exact fun listed => ⟨entry a, listed, inverse a⟩

end Tables

/-- A map filled with its own entries is the same map. -/
theorem ofList_toList (m : OrderedMap κ ν) : ofList m.toList = m := by
  have filled : KeepsLast Prod.fst m.toList (ofList m.toList).toList := by
    have keeps := keepsLast_entries id (fun e => (rfl : id (id e) = e)) m.toList
    rwa [List.map_id, List.map_id] at keeps
  have same : (ofList m.toList).toList = m.toList := filled.eq_source_iff.2 m.ascending
  generalize ofList m.toList = n at same
  cases m
  cases n
  cases same
  rfl

end OrderedMap

end Entitlement
