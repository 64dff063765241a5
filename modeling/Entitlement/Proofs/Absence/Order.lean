import Entitlement.Absence.Record

/-!
Putting records in order is a stable sort: it keeps the members, sorts them by date and identifier,
and commutes with every filter. A fold over ordered records may therefore drop the records that do
not matter before or after they are put in order.
-/

namespace Entitlement

namespace Date

theorem le_refl (a : Date) : a ≤ a :=
  lt_irrefl a

theorem le_of_lt {a b : Date} (h : a < b) : a ≤ b :=
  fun hba => lt_irrefl a (lt_trans h hba)

theorem le_total (a b : Date) : a ≤ b ∨ b ≤ a := by
  rw [le_def, le_def, lt_def, lt_def]
  omega

theorem le_antisymm {a b : Date} (hab : a ≤ b) (hba : b ≤ a) : a = b :=
  eq_of_not_lt hba hab

theorem le_trans {a b c : Date} (hab : a ≤ b) (hbc : b ≤ c) : a ≤ c := by
  rw [le_def, lt_def] at *
  omega

theorem lt_of_not_le {a b : Date} (h : ¬ a ≤ b) : b < a := by
  rw [le_def] at h
  exact Decidable.of_not_not h

theorem year_le_of_le {a b : Date} (h : a ≤ b) : a.year ≤ b.year := by
  rw [le_def, lt_def] at h
  omega

theorem lt_of_year_lt {a b : Date} (h : a.year < b.year) : a < b := by
  rw [lt_def]
  exact .inl h

/-! By date, and by number on one date. -/

section Lexicographic

variable {a b c : Date} {i j k : Nat}

theorem lex_trans (hab : a < b ∨ (a = b ∧ i ≤ j)) (hbc : b < c ∨ (b = c ∧ j ≤ k)) :
    a < c ∨ (a = c ∧ i ≤ k) := by
  rcases hab with hab | ⟨rfl, ij⟩
  · rcases hbc with hbc | ⟨rfl, -⟩
    · exact .inl (lt_trans hab hbc)
    · exact .inl hab
  · rcases hbc with hbc | ⟨rfl, jk⟩
    · exact .inl hbc
    · exact .inr ⟨rfl, Nat.le_trans ij jk⟩

theorem lex_total (a b : Date) (i j : Nat) :
    (a < b ∨ (a = b ∧ i ≤ j)) ∨ (b < a ∨ (b = a ∧ j ≤ i)) := by
  by_cases hab : a < b
  · exact .inl (.inl hab)
  · by_cases hba : b < a
    · exact .inr (.inl hba)
    · have same := eq_of_not_lt hab hba
      rcases Nat.le_total i j with h | h
      · exact .inl (.inr ⟨same, h⟩)
      · exact .inr (.inr ⟨same.symm, h⟩)

theorem lex_antisymm (hab : a < b ∨ (a = b ∧ i ≤ j)) (hba : b < a ∨ (b = a ∧ j ≤ i)) :
    a = b ∧ i = j := by
  rcases hab with hab | ⟨rfl, ij⟩
  · rcases hba with hba | ⟨rfl, -⟩
    · exact absurd (lt_trans hab hba) (lt_irrefl a)
    · exact absurd hab (lt_irrefl _)
  · rcases hba with hba | ⟨-, ji⟩
    · exact absurd hba (lt_irrefl a)
    · exact ⟨rfl, Nat.le_antisymm ij ji⟩

end Lexicographic

end Date

namespace Absence

theorem notAfter_trans (a b c : Absence) (hab : a.notAfter b) (hbc : b.notAfter c) :
    a.notAfter c := by
  simp only [notAfter, decide_eq_true_eq] at *
  exact Date.lex_trans hab hbc

theorem notAfter_total (a b : Absence) : a.notAfter b || b.notAfter a := by
  simp only [notAfter, Bool.or_eq_true, decide_eq_true_eq]
  exact Date.lex_total a.date b.date a.id b.id

theorem date_le_of_notAfter {a b : Absence} (h : a.notAfter b) : a.date ≤ b.date := by
  simp only [notAfter, decide_eq_true_eq] at h
  rcases h with h | ⟨h, -⟩
  · exact Date.le_of_lt h
  · exact h ▸ Date.le_refl a.date

@[simp] theorem inOrder_nil : inOrder [] = [] := by
  simp [inOrder]

@[simp] theorem mem_inOrder {a : Absence} {l : List Absence} : a ∈ inOrder l ↔ a ∈ l := by
  simp [inOrder]

theorem inOrder_perm (l : List Absence) : (inOrder l).Perm l :=
  List.mergeSort_perm l notAfter

theorem inOrder_sorted (l : List Absence) : (inOrder l).Pairwise fun a b => a.notAfter b :=
  List.pairwise_mergeSort notAfter_trans notAfter_total l

theorem inOrder_inOrder (l : List Absence) : inOrder (inOrder l) = inOrder l :=
  List.mergeSort_of_pairwise (inOrder_sorted l)

private theorem inOrder_cons_split (a : Absence) (l : List Absence) :
    ∃ before after, inOrder (a :: l) = before ++ a :: after ∧ inOrder l = before ++ after ∧
      ∀ b ∈ before, !a.notAfter b :=
  List.mergeSort_cons notAfter_trans notAfter_total a l

/-- Putting one more record in order inserts it behind the records that must stand before it. -/
theorem inOrder_cons (a : Absence) (l : List Absence) :
    inOrder (a :: l) = ((inOrder l).filter fun b => !a.notAfter b) ++
      a :: (inOrder l).filter fun b => a.notAfter b := by
  obtain ⟨before, after, hcons, hl, hbefore⟩ := inOrder_cons_split a l
  have sorted : (before ++ a :: after).Pairwise fun a b => a.notAfter b :=
    hcons ▸ inOrder_sorted (a :: l)
  have hafter : ∀ b ∈ after, a.notAfter b :=
    (List.pairwise_cons.1 (List.pairwise_append.1 sorted).2.1).1
  have front : (before ++ after).filter (fun b => !a.notAfter b) = before := by
    rw [List.filter_append, List.filter_eq_self.2 hbefore,
      List.filter_eq_nil_iff.2 fun b hb => by simp [hafter b hb], List.append_nil]
  have back : (before ++ after).filter (fun b => a.notAfter b) = after := by
    rw [List.filter_append, List.filter_eq_self.2 hafter,
      List.filter_eq_nil_iff.2 fun b hb => by simpa using hbefore b hb, List.nil_append]
  rw [hcons, hl, front, back]

/-- Filters may be applied before or after records are put in order. -/
theorem inOrder_filter (p : Absence → Bool) (l : List Absence) :
    (inOrder l).filter p = inOrder (l.filter p) := by
  induction l with
  | nil => simp
  | cons a l ih =>
      by_cases ha : p a
      · have swap (q : Absence → Bool) :
            ((inOrder l).filter q).filter p = (inOrder (l.filter p)).filter q := by
          rw [← ih, List.filter_filter, List.filter_filter]
          exact List.filter_congr fun b _ => Bool.and_comm _ _
        rw [List.filter_cons_of_pos ha, inOrder_cons, inOrder_cons, List.filter_append,
          List.filter_cons_of_pos ha, swap, swap]
      · obtain ⟨before, after, hcons, hl, -⟩ := inOrder_cons_split a l
        rw [List.filter_cons_of_neg ha, ← ih, hcons, hl, List.filter_append,
          List.filter_cons_of_neg ha, List.filter_append]

end Absence

end Entitlement
