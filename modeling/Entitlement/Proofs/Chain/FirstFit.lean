import Entitlement.Proofs.Chain.Offers

/-!
Which period an offer goes to. Of the periods that take a record it is the first that does not turn the
record away, or the last if all of them do; this one receives the record, and the others stay as they are.
-/

namespace Entitlement

namespace Period

/-- A period turns a record away whose amount it can compute but not admit. -/
def Rejects (working : Option Amount) (record : Absence) (p : Period) : Prop :=
  ∃ amount, record.weight? p.unit working = some amount ∧
    (p.assess record amount).isAdmitted = false

/-- What becomes of a period that a record goes to: it is compromised if the amount cannot be computed,
and charged otherwise, whether the record fits or not. -/
def receive (working : Option Amount) (record : Absence) (p : Period) : Period :=
  match record.weight? p.unit working with
  | none => p.compromise (p.amountError record)
  | some amount => p.charge (p.assess record amount)

variable {working : Option Amount} {record : Absence} {p : Period}

theorem receive_of_none (h : record.weight? p.unit working = none) :
    p.receive working record = p.compromise (p.amountError record) := by
  rw [receive, h]

theorem receive_of_some {amount : Amount} (h : record.weight? p.unit working = some amount) :
    p.receive working record = p.charge (p.assess record amount) := by
  rw [receive, h]

@[simp] theorem terms_receive (working : Option Amount) (record : Absence) (p : Period) :
    (p.receive working record).terms = p.terms := by
  unfold receive
  split
  · rfl
  · exact terms_charge p _

theorem not_rejects_of_none (h : record.weight? p.unit working = none) :
    ¬ p.Rejects working record := by
  rintro ⟨amount, computed, -⟩
  rw [h] at computed
  cases computed

theorem rejects_iff {amount : Amount} (h : record.weight? p.unit working = some amount) :
    p.Rejects working record ↔ (p.assess record amount).isAdmitted = false := by
  constructor
  · rintro ⟨other, computed, rejected⟩
    rw [h, Option.some.injEq] at computed
    exact computed ▸ rejected
  · exact fun rejected => ⟨amount, h, rejected⟩

end Period

namespace Chain

/-- The place of the period a record goes to: all before it that take the record turn it away, and if it
does so itself, none behind it takes the record. -/
structure FirstFit (working : Option Amount) (record : Absence) (periods : List Period) (i : Nat)
    (p : Period) : Prop where
  there : periods[i]? = some p
  takes : p.takes record = true
  passed {j : Nat} {q : Period} : j < i → periods[j]? = some q → q.takes record = true →
    q.Rejects working record
  last {j : Nat} {q : Period} : p.Rejects working record → i < j → periods[j]? = some q →
    q.takes record = false

namespace FirstFit

variable {working : Option Amount} {record : Absence} {p q : Period} {rest periods : List Period}
  {i : Nat}

theorem here (takes : p.takes record = true)
    (last : p.Rejects working record → ∀ q ∈ rest, q.takes record = false) :
    FirstFit working record (p :: rest) 0 p where
  there := rfl
  takes := takes
  passed {j q} before := absurd before (Nat.not_lt_zero j)
  last {j q} rejects behind found := by
    cases j with
    | zero => exact absurd behind (Nat.lt_irrefl 0)
    | succ j => exact last rejects q (List.mem_of_getElem? found)

theorem behind (passed : p.takes record = true → p.Rejects working record)
    (h : FirstFit working record rest i q) : FirstFit working record (p :: rest) (i + 1) q where
  there := h.there
  takes := h.takes
  passed {j r} before found takes := by
    cases j with
    | zero =>
      cases found
      exact passed takes
    | succ j => exact h.passed (Nat.lt_of_succ_lt_succ before) found takes
  last {j r} rejects behind found := by
    cases j with
    | zero => exact absurd behind (Nat.not_lt_zero _)
    | succ j => exact h.last rejects (Nat.lt_of_succ_lt_succ behind) found

/-- The period a record goes to turns it away exactly when every period that takes it does. -/
theorem rejects_iff (h : FirstFit working record periods i p) : p.Rejects working record ↔
    ∀ q ∈ periods, q.takes record = true → q.Rejects working record := by
  constructor
  · intro rejects q hq takes
    obtain ⟨j, found⟩ := List.mem_iff_getElem?.1 hq
    rcases Nat.lt_trichotomy j i with before | rfl | behind
    · exact h.passed before found takes
    · rw [h.there, Option.some.injEq] at found
      exact found ▸ rejects
    · rw [h.last rejects behind found] at takes
      cases takes
  · exact fun all => all p (List.mem_of_getElem? h.there) h.takes

end FirstFit

/-- An offer changes one period at most: the first fit receives the record. -/
theorem offer_firstFit (working : Option Amount) {record : Absence} {periods : List Period}
    (h : ∃ p ∈ periods, p.takes record = true) : ∃ i p, FirstFit working record periods i p ∧
      offer working record periods = (periods.set i (p.receive working record), true) := by
  induction periods with
  | nil =>
    obtain ⟨p, hp, -⟩ := h
    exact absurd hp List.not_mem_nil
  | cons p rest ih =>
    -- Where the first period is passed, the offer to the others is put behind it.
    have later (goes : ∃ q ∈ rest, q.takes record = true)
        (passed : p.takes record = true → p.Rejects working record)
        (step : ∀ periods, offer working record rest = (periods, true) →
          offer working record (p :: rest) = (p :: periods, true)) :
        ∃ i q, FirstFit working record (p :: rest) i q ∧ offer working record (p :: rest) =
          ((p :: rest).set i (q.receive working record), true) := by
      obtain ⟨i, q, fit, offered⟩ := ih goes
      exact ⟨i + 1, q, fit.behind passed, step _ offered⟩
    by_cases takes : p.takes record = true
    · cases computed : record.weight? p.unit working with
      | none =>
        refine ⟨0, p, .here takes fun rejects =>
          absurd rejects (Period.not_rejects_of_none computed), ?_⟩
        simp only [offer, takes, if_true, computed, Period.receive_of_none computed,
          List.set_cons_zero]
      | some amount =>
        cases admitted : (p.assess record amount).isAdmitted with
        | true =>
          refine ⟨0, p, .here takes fun rejects => ?_, ?_⟩
          · rw [Period.rejects_iff computed, admitted] at rejects
            cases rejects
          · simp only [offer, takes, if_true, computed, admitted, Period.receive_of_some computed,
              List.set_cons_zero]
        | false =>
          by_cases goes : ∃ q ∈ rest, q.takes record = true
          · refine later goes (fun _ => ⟨amount, computed, admitted⟩) fun periods offered => ?_
            simp only [offer, takes, if_true, computed, admitted, Bool.false_eq_true, if_false, offered]
          · have none : ∀ q ∈ rest, q.takes record = false := fun q hq =>
              Bool.eq_false_iff.2 fun h => goes ⟨q, hq, h⟩
            refine ⟨0, p, .here takes fun _ => none, ?_⟩
            simp only [offer, takes, if_true, computed, admitted, Bool.false_eq_true, if_false,
              offer_of_not_takes none, Period.receive_of_some computed, List.set_cons_zero]
    · obtain ⟨q, hq, goes⟩ := h
      rcases List.mem_cons.1 hq with rfl | hq
      · exact absurd goes takes
      · refine later ⟨q, hq, goes⟩ (fun h => absurd h takes) fun periods offered => ?_
        simp only [offer, takes, Bool.false_eq_true, if_false, offered]

/-- Changing one element of a list to a related one leaves related lists. -/
theorem forall₂_set {α : Type} {S : α → α → Prop} (stay : ∀ a, S a a) {l : List α} {i : Nat} {a b : α}
    (h : l[i]? = some a) (hab : S a b) : List.Forall₂ S l (l.set i b) := by
  induction l generalizing i with
  | nil => cases h
  | cons c l ih =>
    cases i with
    | zero =>
      cases h
      exact .cons hab (List.forall₂_same.2 fun d _ => stay d)
    | succ i => exact .cons (stay c) (ih h)

/-- All an offer does to a period: nothing, or it receives a record that it takes. -/
theorem offer_steps {S : Period → Period → Prop} {working : Option Amount} {record : Absence}
    (stay : ∀ p, S p p)
    (receive : ∀ p, p.takes record = true → S p (p.receive working record)) (ps : List Period) :
    List.Forall₂ S ps (offer working record ps).1 := by
  by_cases h : ∃ p ∈ ps, p.takes record = true
  · obtain ⟨i, p, fit, offered⟩ := offer_firstFit working h
    rw [offered]
    exact forall₂_set stay fit.there (receive p fit.takes)
  · rw [offer_of_not_takes fun p hp => Bool.eq_false_iff.2 fun takes => h ⟨p, hp, takes⟩]
    exact List.forall₂_same.2 fun p _ => stay p

end Chain

end Entitlement
