/-!
Keys that stand in one fixed order. A sorted container compares its keys through
`Ordered.before` alone, so its contents determine its layout: numbers ascend, texts follow their
code points, pairs compare their first parts first, and enumerations follow a numbering.
-/

namespace Entitlement

/-- A type whose values stand in one strict linear order. -/
class Ordered (α : Type) where
  before : α → α → Bool
  irrefl (a : α) : before a a = false
  trans {a b c : α} : before a b → before b c → before a c
  connected {a b : α} : before a b = false → before b a = false → a = b

namespace Ordered

variable {α β : Type}

theorem asymm [Ordered α] {a b : α} (h : before a b) : before b a = false := by
  cases hba : before b a with
  | false => rfl
  | true => exact absurd (trans h hba) (by simp [irrefl])

theorem ne_of_before [Ordered α] {a b : α} (h : before a b) : a ≠ b := by
  rintro rfl
  simp [irrefl] at h

theorem before_or_eq_or_before [Ordered α] (a b : α) : before a b ∨ a = b ∨ before b a := by
  cases hab : before a b with
  | true => exact .inl rfl
  | false =>
      cases hba : before b a with
      | true => exact .inr (.inr rfl)
      | false => exact .inr (.inl (connected hab hba))

/-- Two lists in the same strict order with the same members are the same list. -/
theorem list_eq_of_mem_iff {r : α → α → Prop} (asymm : ∀ {a b}, r a b → ¬ r b a) {l m : List α}
    (hl : l.Pairwise r) (hm : m.Pairwise r) (h : ∀ x, x ∈ l ↔ x ∈ m) : l = m := by
  have irrefl {a : α} (ha : r a a) : False := asymm ha ha
  induction l generalizing m with
  | nil =>
      cases m with
      | nil => rfl
      | cons b m => exact absurd ((h b).2 (by simp)) (by simp)
  | cons a l ih =>
      cases m with
      | nil => exact absurd ((h a).1 (by simp)) (by simp)
      | cons b m =>
          have ha {x} (hx : x ∈ l) := (List.pairwise_cons.1 hl).1 x hx
          have hb {x} (hx : x ∈ m) := (List.pairwise_cons.1 hm).1 x hx
          have hab : a = b := by
            rcases List.mem_cons.1 ((h a).1 (by simp)) with e | am
            · exact e
            · rcases List.mem_cons.1 ((h b).2 (by simp)) with e | bl
              · exact e.symm
              · exact absurd (hb am) (asymm (ha bl))
          subst hab
          congr 1
          refine ih hl.of_cons hm.of_cons fun x => ?_
          constructor
          · intro hx
            rcases List.mem_cons.1 ((h x).1 (by simp [hx])) with rfl | hx'
            · exact (irrefl (ha hx)).elim
            · exact hx'
          · intro hx
            rcases List.mem_cons.1 ((h x).2 (by simp [hx])) with rfl | hx'
            · exact (irrefl (hb hx)).elim
            · exact hx'

instance : Ordered Nat where
  before a b := decide (a < b)
  irrefl a := by simp
  trans hab hbc := by
    simp only [decide_eq_true_eq] at *
    omega
  connected hab hba := by
    simp only [decide_eq_false_iff_not] at *
    omega

/-- Texts follow their code points, the first difference decides. -/
instance : Ordered String where
  before a b := decide (a < b)
  irrefl a := by simp
  trans hab hbc := by
    simp only [decide_eq_true_eq] at *
    exact String.lt_trans hab hbc
  connected hab hba := by
    simp only [decide_eq_false_iff_not] at *
    exact String.le_antisymm (String.not_lt.1 hba) (String.not_lt.1 hab)

/-- Values follow the order of a key that tells them apart. -/
@[reducible] def byKey [Ordered β] (key : α → β) (injective : ∀ {a b}, key a = key b → a = b) :
    Ordered α where
  before a b := before (key a) (key b)
  irrefl a := irrefl (key a)
  trans hab hbc := trans hab hbc
  connected hab hba := injective (connected hab hba)

/-- Pairs compare their first parts, and their second parts where the first agree. -/
instance [DecidableEq α] [Ordered α] [Ordered β] : Ordered (α × β) where
  before p q := before p.1 q.1 || (decide (p.1 = q.1) && before p.2 q.2)
  irrefl p := by simp [irrefl]
  trans {p q r} hpq hqr := by
    simp only [Bool.or_eq_true, Bool.and_eq_true, decide_eq_true_eq] at *
    rcases hpq with hpq | ⟨hpq, hpq'⟩ <;> rcases hqr with hqr | ⟨hqr, hqr'⟩
    · exact .inl (trans hpq hqr)
    · exact .inl (hqr ▸ hpq)
    · exact .inl (hpq ▸ hqr)
    · exact .inr ⟨hpq.trans hqr, trans hpq' hqr'⟩
  connected {p q} hpq hqp := by
    simp only [Bool.or_eq_false_iff, Bool.and_eq_false_iff, decide_eq_false_iff_not] at *
    have first : p.1 = q.1 := connected hpq.1 hqp.1
    have second : p.2 = q.2 :=
      connected (hpq.2.resolve_left (· first)) (hqp.2.resolve_left (· first.symm))
    exact Prod.ext first second

end Ordered

end Entitlement
