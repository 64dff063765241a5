import Entitlement.Proofs.Chain.Filling
import Entitlement.Proofs.Chain.FirstFit
import Entitlement.Proofs.Period.Days

/-!
What bringing records into periods puts on their days. A period keeps its terms and stays tidy, and on
each date it lists exactly the records brought in that replace in it there. A record that is neither
taken nor completing anywhere leaves the outline of every period as it was.
-/

namespace Entitlement

def Period.failsToComplete (working : Option Amount) (record : Absence) (period : Period) : Bool :=
  period.completes record && period.category.completion.any fun completion =>
    (record.weight? completion.unit working).isNone

theorem Period.failsToComplete_congr {working : Option Amount} {record : Absence} {p q : Period}
    (h : p.terms = q.terms) : p.failsToComplete working record = q.failsToComplete working record := by
  rw [failsToComplete, failsToComplete, completes_congr (place_of_terms h), (terms_eq_iff.1 h).1]

namespace Chain

/-- Lists related element by element through a list between them. -/
theorem forall₂_comp {α β γ : Type} {R : α → β → Prop} {S : β → γ → Prop} {T : α → γ → Prop}
    (h : ∀ a b c, R a b → S b c → T a c) {l : List α} {m : List β} {n : List γ}
    (first : List.Forall₂ R l m) (second : List.Forall₂ S m n) : List.Forall₂ T l n := by
  induction first generalizing n with
  | nil =>
      cases second
      exact .nil
  | cons hab _ ih =>
      cases second with
      | cons hbc rest => exact .cons (h _ _ _ hab hbc) (ih rest)

theorem forall₂_mem_right {α β : Type} {R : α → β → Prop} {l : List α} {m : List β}
    (h : List.Forall₂ R l m) {b : β} (hb : b ∈ m) : ∃ a ∈ l, R a b := by
  induction h with
  | nil => exact absurd hb List.not_mem_nil
  | @cons a c l m hac _ ih =>
      rcases List.mem_cons.1 hb with rfl | hb
      · exact ⟨a, List.mem_cons_self, hac⟩
      · obtain ⟨a, ha, hab⟩ := ih hb
        exact ⟨a, List.mem_cons_of_mem _ ha, hab⟩

theorem forall₂_getElem? {α β : Type} {R : α → β → Prop} {l : List α} {m : List β}
    (h : List.Forall₂ R l m) {j : Nat} {b : β} (hb : m[j]? = some b) : ∃ a, l[j]? = some a ∧ R a b := by
  induction h generalizing j with
  | nil => cases hb
  | @cons a c l m hac _ ih =>
    cases j with
    | zero =>
      cases hb
      exact ⟨a, rfl, hac⟩
    | succ j => exact ih hb

/-- Lists are related by the values of a function exactly when it maps them to one list. -/
theorem forall₂_map_eq {α β : Type} {f : α → β} {l m : List α} :
    List.Forall₂ (fun a b => f a = f b) l m ↔ l.map f = m.map f := by
  rw [← List.forall₂_eq_eq_eq, List.forall₂_map_left_iff, List.forall₂_map_right_iff]

/-- All an attachment does to a period: it adds the completion or, where that cannot be computed, the error
of the record, and then the replacing record. -/
theorem attach_steps {S : Period → Prop} {working : Option Amount} {record : Absence} {p : Period}
    (stay : S p) (complete : ∀ amount, S (p.addCompletion record amount))
    (fail : p.failsToComplete working record = true → S (p.compromise (p.amountError record)))
    (replace : ∀ q, S q → S (q.addReplacing record)) : S (attach working record p) := by
  have completed : S (if p.completes record then p.completeWith working record else p) := by
    split
    · next completes =>
      unfold Period.completeWith
      split
      · exact stay
      · next completion asks =>
        split
        · exact complete _
        · next unknown => exact fail (by simp [Period.failsToComplete, completes, asks, unknown])
    · exact stay
  unfold attach
  dsimp only
  split
  · exact replace _ completed
  · exact completed

structure Brought (record : Absence) (p q : Period) : Prop where
  terms : q.terms = p.terms
  replacings (d : Date) : (q.dayAt d).replacings =
    (p.dayAt d).replacings ++ if p.replaces record && d = record.date then [record] else []
  tidy : p.Tidy → q.Tidy

theorem mem_range_of_covers {p : Period} {d : Date} (h : p.covers d = true) : d ∈ p.range := by
  simpa [Period.covers, DateRange.contains] using h

theorem mem_range_of_takes {p : Period} {record : Absence} (h : p.takes record = true) :
    record.date ∈ p.range :=
  mem_range_of_covers (Bool.and_eq_true_iff.1 h).1

structure Offered (p q : Period) : Prop where
  terms : q.terms = p.terms
  replacings (d : Date) : (q.dayAt d).replacings = (p.dayAt d).replacings
  tidy : p.Tidy → q.Tidy

theorem offered_compromise (p : Period) (error : CriticalError) : Offered p (p.compromise error) where
  terms := rfl
  replacings _ := rfl
  tidy h := Period.tidy_of_days h rfl rfl

theorem offer_offered (working : Option Amount) (record : Absence) (ps : List Period) :
    List.Forall₂ Offered ps (offer working record ps).1 := by
  refine offer_steps (fun p => ⟨rfl, fun _ => rfl, id⟩) (fun p takes => ?_) ps
  cases computed : record.weight? p.unit working with
  | none =>
    rw [Period.receive_of_none computed]
    exact offered_compromise p _
  | some amount =>
    rw [Period.receive_of_some computed]
    refine ⟨Period.terms_charge p _, fun d => ?_, fun h => ?_⟩
    · rw [Period.dayAt_charge]
      split <;> rfl
    · exact Period.tidy_charge h (mem_range_of_takes takes)

theorem completeWith_offered (working : Option Amount) {record : Absence} {p : Period}
    (inside : record.date ∈ p.range) : Offered p (p.completeWith working record) := by
  unfold Period.completeWith
  split
  · exact ⟨rfl, fun _ => rfl, id⟩
  · split
    · refine ⟨rfl, fun d => ?_, fun h => Period.tidy_addCompletion h inside _⟩
      rw [Period.dayAt_addCompletion]
      split <;> rfl
    · exact offered_compromise p _

theorem attach_brought (working : Option Amount) (record : Absence) (p : Period) :
    Brought record p (attach working record p) := by
  have completed : Offered p (if p.completes record then p.completeWith working record else p) := by
    split
    · next completes =>
      exact completeWith_offered working (mem_range_of_covers (Bool.and_eq_true_iff.1 completes).1)
    · exact ⟨rfl, fun _ => rfl, id⟩
  have terms := attach_terms working record p
  simp only [attach] at terms ⊢
  generalize (if p.completes record then p.completeWith working record else p) = q at completed terms
  refine ⟨terms, fun d => ?_, fun h => ?_⟩
  · by_cases replaces : p.replaces record = true
    · rw [if_pos replaces, Period.dayAt_addReplacing]
      by_cases same : d = record.date
      · rw [if_pos same, if_pos (by simp [replaces, same])]
        exact congrArg (· ++ [record]) (completed.replacings d)
      · rw [if_neg same, if_neg (by simp [same]), List.append_nil]
        exact completed.replacings d
    · rw [if_neg replaces, if_neg (by simp [replaces]), List.append_nil]
      exact completed.replacings d
  · by_cases replaces : p.replaces record = true
    · rw [if_pos replaces]
      refine Period.tidy_addReplacing (completed.tidy h) ?_
      rw [(Period.terms_eq_iff.1 completed.terms).2.1]
      exact mem_range_of_covers (Bool.and_eq_true_iff.1 replaces).1
    · rw [if_neg replaces]
      exact completed.tidy h

theorem bring_brought (working : Option Amount) (record : Absence) (ps : List Period) :
    List.Forall₂ (Brought record) ps (bring working record ps) := by
  simp only [bring, List.forall₂_map_right_iff]
  apply (offer_offered working record ps).imp
  intro p q offered
  have attached := attach_brought working record q
  have replaces : q.replaces record = p.replaces record :=
    Period.replaces_congr (Period.place_of_terms offered.terms) record
  refine ⟨attached.terms.trans offered.terms, fun d => ?_, fun h => attached.tidy (offered.tidy h)⟩
  rw [attached.replacings, offered.replacings, replaces]

/-- What bringing in a list of records does to a period: on each date it lists those that replace in it
there. -/
structure BroughtAll (records : List Absence) (p q : Period) : Prop where
  terms : q.terms = p.terms
  replacings (d : Date) : (q.dayAt d).replacings =
    (p.dayAt d).replacings ++ records.filter fun a => p.replaces a && d = a.date
  tidy : p.Tidy → q.Tidy

theorem broughtAll_cons {record : Absence} {rest : List Absence} {p q r : Period}
    (first : Brought record p q) (later : BroughtAll rest q r) : BroughtAll (record :: rest) p r := by
  refine ⟨later.terms.trans first.terms, fun d => ?_, fun h => later.tidy (first.tidy h)⟩
  have same (a : Absence) : q.replaces a = p.replaces a :=
    Period.replaces_congr (Period.place_of_terms first.terms) a
  rw [later.replacings, first.replacings, List.append_assoc, List.filter_cons]
  simp only [same]
  split
  · rfl
  · rfl

theorem bringAll_brought (working : Date → Option Amount) (records : List Absence)
    (ps : List Period) : List.Forall₂ (BroughtAll records) ps (bringAll working records ps) := by
  induction records generalizing ps with
  | nil => exact List.forall₂_same.2 fun p _ => ⟨rfl, fun _ => by simp, id⟩
  | cons a rest ih =>
      have first := bring_brought (working a.date) a ps
      have later := ih (bring (working a.date) a ps)
      exact forall₂_comp (R := Brought a) (S := BroughtAll rest) (fun _ _ _ => broughtAll_cons) first
        later

/-- A record that no period takes and that completes none leaves every outline as it was. -/
theorem bring_outline (working : Option Amount) {record : Absence} {ps : List Period}
    (h : ∀ p ∈ ps, p.takes record = false ∧ p.completes record = false) :
    (bring working record ps).map Period.outline = ps.map Period.outline := by
  rw [bring, offer_of_not_takes fun p hp => (h p hp).1, List.map_map]
  apply List.map_congr_left
  intro p hp
  simp only [Function.comp_apply, attach, (h p hp).2]
  split
  · exact Period.outline_addReplacing p record
  · rfl

/-- Lists of one outline keep one outline whatever is brought into both. -/
theorem bringAll_outline_congr (working : Date → Option Amount) (records : List Absence)
    {ps qs : List Period} (h : ps.map Period.outline = qs.map Period.outline) :
    (bringAll working records ps).map Period.outline =
      (bringAll working records qs).map Period.outline :=
  forall₂_map_eq.1 (bringAll_related Period.outline_respected working records (forall₂_map_eq.2 h))

/-- The outline is that of the records that are taken or complete; the others may be left out. -/
theorem bringAll_outline (working : Date → Option Amount) {plain : Absence → Bool}
    {ps : List Period}
    (h : ∀ a, plain a = false → ∀ p ∈ ps, p.takes a = false ∧ p.completes a = false)
    (records : List Absence) :
    (bringAll working records ps).map Period.outline =
      (bringAll working (records.filter plain) ps).map Period.outline := by
  induction records generalizing ps with
  | nil => rfl
  | cons a rest ih =>
      by_cases kept : plain a = true
      · rw [List.filter_cons_of_pos kept]
        apply ih
        intro b hb p hp
        have brought := place_of_terms (bring_terms (working a.date) a ps)
        exact ⟨none_congr_place (fun _ _ h => Period.takes_congr h b) brought
            (fun q hq => (h b hb q hq).1) p hp,
          none_congr_place (fun _ _ h => Period.completes_congr h b) brought
            (fun q hq => (h b hb q hq).2) p hp⟩
      · rw [List.filter_cons_of_neg kept, ← ih h]
        exact bringAll_outline_congr working rest
          (bring_outline (working a.date) (h a (Bool.eq_false_iff.2 kept)))

end Chain

end Entitlement
