import Entitlement.Ordered.Map

/-!
Entries under the latest key of a map. Put behind keys that come before it, an entry stands last: as a new one,
or over the entry of its key.
-/

namespace Entitlement

namespace OrderedMap

open Ordered

variable {κ ν : Type} [Ordered κ] {k : κ} {v : ν}

theorem insertInto_append {front rest : List (κ × ν)} (h : ∀ e ∈ front, before e.1 k) :
    insertInto k v (front ++ rest) = front ++ insertInto k v rest := by
  induction front with
  | nil => rfl
  | cons e front ih =>
    have first := h e List.mem_cons_self
    have others := ih fun e' he => h e' (List.mem_cons_of_mem _ he)
    rw [List.cons_append, insertInto, if_neg (by simp [asymm first]), if_pos first, others,
      List.cons_append]

theorem insertInto_above {l : List (κ × ν)} (h : ∀ e ∈ l, before e.1 k) :
    insertInto k v l = l ++ [(k, v)] := by
  have last : insertInto k v (l ++ []) = l ++ insertInto k v [] := insertInto_append h
  rwa [List.append_nil] at last

/-- An entry whose key is above all others comes last. -/
theorem values_insert_above {m : OrderedMap κ ν}
    (h : ∀ e ∈ m.toList, before e.1 k = true) : (m.insert k v).values = m.values ++ [v] := by
  show (insertInto k v m.toList).map (·.2) = m.toList.map (·.2) ++ [v]
  rw [insertInto_above h, List.map_append]
  rfl

/-- An entry whose key no other passes is put last, over the entry of its key if there is one. -/
theorem insert_latest [DecidableEq κ] {m : OrderedMap κ ν}
    (latest : ∀ e ∈ m.toList, before k e.1 = false) :
    ∃ front, m.toList = front ++ ((m.get? k).map fun v => (k, v)).toList ∧
      ∀ v, (m.insert k v).toList = front ++ [(k, v)] := by
  cases found : m.get? k with
  | none =>
    have above : ∀ e ∈ m.toList, before e.1 k := by
      intro e he
      rcases before_or_eq_or_before e.1 k with first | rfl | behind
      · exact first
      · exact absurd he (get?_eq_none_iff.1 found e.2)
      · exact absurd (latest e he) (by simp [behind])
    exact ⟨m.toList, (List.append_nil _).symm, fun v => insertInto_above above⟩
  | some old =>
    obtain ⟨front, behind, split⟩ := List.append_of_mem (get?_eq_some_iff.1 found)
    have sorted := m.ascending
    rw [split, List.pairwise_append, List.pairwise_cons] at sorted
    obtain ⟨-, ⟨later, -⟩, earlier⟩ := sorted
    have last : behind = [] := by
      refine List.eq_nil_iff_forall_not_mem.2 fun e he => ?_
      have reached := latest e (split ▸ List.mem_append_right _ (List.mem_cons_of_mem _ he))
      rw [later e he] at reached
      cases reached
    subst last
    refine ⟨front, split, fun v => ?_⟩
    show insertInto k v m.toList = _
    rw [split, insertInto_append fun e he => earlier e he _ List.mem_cons_self, insertInto,
      if_neg (by simp [Ordered.irrefl]), if_neg (by simp [Ordered.irrefl])]

end OrderedMap

end Entitlement
