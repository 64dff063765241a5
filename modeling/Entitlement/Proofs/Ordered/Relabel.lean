import Entitlement.Ordered.Map
import Entitlement.Ordered.Set

/-!
Containers under a map of their keys that keeps the order. Such a map never brings two keys together and
never lets them change places, so looking up, inserting, erasing and walking commute with it.
-/

namespace Entitlement

open Ordered

def Ordered.Embeds {α β : Type} [Ordered α] [Ordered β] (key : α → β) : Prop :=
  ∀ a b, before (key a) (key b) = before a b

theorem Ordered.Embeds.same {α : Type} [Ordered α] : Embeds (id : α → α) :=
  fun _ _ => rfl

theorem Ordered.Embeds.injective {α β : Type} [Ordered α] [Ordered β] {key : α → β} (embeds : Embeds key)
    {a b : α} (same : key a = key b) : a = b := by
  have no : before (key a) (key b) = false := same ▸ irrefl (key a)
  have on : before (key b) (key a) = false := same ▸ irrefl (key a)
  exact connected (by rw [← embeds, no]) (by rw [← embeds, on])

namespace OrderedMap

variable {κ κ' ν ν' σ : Type} [Ordered κ] [Ordered κ'] {key : κ → κ'}

def relabel (m : OrderedMap κ ν) (embeds : Embeds key) (value : ν → ν') : OrderedMap κ' ν' :=
  ⟨m.toList.map fun e => (key e.1, value e.2), by
    refine List.pairwise_map.2 (m.ascending.imp fun {p q} h => ?_)
    rw [embeds]
    exact h⟩

variable (embeds : Embeds key) (value : ν → ν') (m : OrderedMap κ ν)

theorem values_relabel : (m.relabel embeds value).values = m.values.map value := by
  simp [values, relabel, Function.comp_def]

theorem get?_relabel [DecidableEq κ] [DecidableEq κ'] (k : κ) :
    (m.relabel embeds value).get? (key k) = (m.get? k).map value := by
  apply Option.ext
  intro w
  rw [get?_eq_some_iff, Option.map_eq_some_iff]
  simp only [relabel, List.mem_map, Prod.mk.injEq, Prod.exists, get?_eq_some_iff]
  constructor
  · rintro ⟨k', v, mem, same, rfl⟩
    exact ⟨v, embeds.injective same ▸ mem, rfl⟩
  · rintro ⟨v, mem, rfl⟩
    exact ⟨k, v, mem, rfl, rfl⟩

theorem contains_relabel [DecidableEq κ] [DecidableEq κ'] (k : κ) :
    (m.relabel embeds value).contains (key k) = m.contains k := by
  rw [contains, get?_relabel, Option.isSome_map]
  rfl

theorem insert_relabel (k : κ) (v : ν) :
    (m.relabel embeds value).insert (key k) (value v) = (m.insert k v).relabel embeds value := by
  have into (l : List (κ × ν)) : insertInto (key k) (value v) (l.map fun e => (key e.1, value e.2)) =
      (insertInto k v l).map fun e => (key e.1, value e.2) := by
    induction l with
    | nil => rfl
    | cons e rest ih =>
      simp only [List.map_cons, insertInto, embeds k e.1, embeds e.1 k, ih]
      split
      · rfl
      · split
        · rfl
        · rfl
  simp only [insert, relabel, into]

/-- Entries that pass a test after relabelling are those that pass the same test before. -/
theorem filter_relabel {p : κ' → ν' → Bool} {q : κ → ν → Bool}
    (same : ∀ k v, (k, v) ∈ m.toList → p (key k) (value v) = q k v) :
    (m.relabel embeds value).filter p = (m.filter q).relabel embeds value := by
  simp only [filter, relabel, List.filter_map, mk.injEq]
  congr 1
  exact List.filter_congr fun e he => same e.1 e.2 he

theorem erase_relabel [DecidableEq κ] [DecidableEq κ'] (k : κ) :
    (m.relabel embeds value).erase (key k) = (m.erase k).relabel embeds value := by
  refine filter_relabel embeds value m fun k' v _ => ?_
  exact decide_eq_decide.2 (not_congr ⟨embeds.injective, congrArg key⟩)

/-- Relabelling that changes no entry. -/
theorem relabel_eq_self {key : κ → κ} (embeds : Embeds key) {value : ν → ν} {m : OrderedMap κ ν}
    (fixed : ∀ k v, (k, v) ∈ m.toList → key k = k ∧ value v = v) : m.relabel embeds value = m := by
  obtain ⟨l, ascending⟩ := m
  have entries : (l.map fun e => (key e.1, value e.2)) = l.map id := by
    refine List.map_congr_left fun e he => ?_
    obtain ⟨sameKey, sameValue⟩ := fixed e.1 e.2 he
    exact Prod.ext sameKey sameValue
  simp only [relabel, entries, List.map_id]

/-- A walk whose steps commute with a change of the values. -/
theorem scan_relabel {step : σ → κ → ν → σ × ν} {value : ν → ν}
    (commutes : ∀ s k v, step s k (value v) = ((step s k v).1, value (step s k v).2)) (s : σ) :
    ((m.relabel .same value).scan step s).2 = (m.scan step s).2.relabel .same value := by
  have walk (l : List (κ × ν)) (s : σ) :
      (scanList step s (l.map fun e => (e.1, value e.2))).2 =
        (scanList step s l).2.map fun e => (e.1, value e.2) := by
    induction l generalizing s with
    | nil => rfl
    | cons e rest ih => simp only [List.map_cons, scanList, commutes, ih]
  simp only [scan, relabel, id, walk]

end OrderedMap

namespace OrderedSet

variable {α β : Type} [Ordered α] [Ordered β] {key : α → β} (embeds : Embeds key)

def relabel (s : OrderedSet α) (embeds : Embeds key) : OrderedSet β :=
  ⟨s.toList.map key, by
    refine List.pairwise_map.2 (s.ascending.imp fun {a b} h => ?_)
    rw [embeds]
    exact h⟩

theorem mem_relabel {s : OrderedSet α} {a : α} : key a ∈ s.relabel embeds ↔ a ∈ s := by
  rw [mem_def, mem_def, relabel, List.mem_map]
  constructor
  · rintro ⟨b, mem, same⟩
    exact embeds.injective same ▸ mem
  · exact fun mem => ⟨a, mem, rfl⟩

theorem contains_relabel [DecidableEq α] [DecidableEq β] (s : OrderedSet α) (a : α) :
    (s.relabel embeds).contains (key a) = s.contains a :=
  decide_eq_decide.2 (mem_relabel embeds)

theorem insert_relabel (s : OrderedSet α) (a : α) :
    (s.relabel embeds).insert (key a) = (s.insert a).relabel embeds := by
  apply ext
  intro b
  simp only [mem_def, insert, mem_insertInto, relabel, List.mem_map]
  constructor
  · rintro (rfl | ⟨c, mem, rfl⟩)
    · exact ⟨a, .inl rfl, rfl⟩
    · exact ⟨c, .inr mem, rfl⟩
  · rintro ⟨c, rfl | mem, rfl⟩
    · exact .inl rfl
    · exact .inr ⟨c, mem, rfl⟩

theorem ofList_relabel (l : List α) : ofList (l.map key) = (ofList l).relabel embeds := by
  have fold (l : List α) (s : OrderedSet α) :
      (s.relabel embeds).insertMany (l.map key) = (s.insertMany l).relabel embeds := by
    induction l generalizing s with
    | nil => rfl
    | cons a rest ih =>
      show ((s.relabel embeds).insert (key a)).insertMany (rest.map key) = _
      rw [insert_relabel, ih]
      rfl
  exact fold l ∅

end OrderedSet

end Entitlement
