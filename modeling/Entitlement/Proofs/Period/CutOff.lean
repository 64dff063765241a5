import Entitlement.Proofs.Period.Settling

/-!
Periods up to a cut-off date. The walk over the days goes by date, so what it decides up to the cut-off
depends on nothing behind it: neither on the days there nor on errors dated there.
-/

namespace Entitlement

namespace OrderedMap

/-- In an ascending list a scan up to some key is the scan of the entries up to it. -/
theorem scanList_filter {κ ν ν' σ : Type} {f : σ → κ → ν → σ × ν'} (upTo : κ → Bool)
    {l : List (κ × ν)} (ascending : l.Pairwise fun a b => upTo b.1 = true → upTo a.1 = true) (s : σ) :
    (scanList f s l).2.filter (fun e => upTo e.1) =
      (scanList f s (l.filter fun e => upTo e.1)).2 := by
  induction l generalizing s with
  | nil => rfl
  | cons entry rest ih =>
      obtain ⟨k, v⟩ := entry
      obtain ⟨first, ascending⟩ := List.pairwise_cons.1 ascending
      cases here : upTo k with
      | true => simp only [scanList, List.filter_cons, here, if_true, ih ascending]
      | false =>
        have behind : ∀ e ∈ rest, upTo e.1 = false := fun e he =>
          Bool.eq_false_iff.2 fun there => Bool.false_ne_true (here.symm.trans (first e he there))
        have behind' (s : σ) : ∀ e ∈ (scanList f s rest).2, upTo e.1 = false := by
          intro e he
          have key := List.mem_map_of_mem (f := (·.1)) he
          rw [scanList_keys] at key
          obtain ⟨e', he', same⟩ := List.mem_map.1 key
          exact same ▸ behind e' he'
        have none : rest.filter (fun e => upTo e.1) = [] := List.filter_eq_nil_iff.2 fun e he => by
          simp [behind e he]
        have none' (s : σ) : (scanList f s rest).2.filter (fun e => upTo e.1) = [] :=
          List.filter_eq_nil_iff.2 fun e he => by simp [behind' s e he]
        simp only [scanList, List.filter_cons, here, Bool.false_eq_true, if_false, none, none']

/-- Scans that treat the entries of a list alike scan it alike. -/
theorem scanList_congr {κ ν ν' σ : Type} {f g : σ → κ → ν → σ × ν'} {l : List (κ × ν)}
    (same : ∀ e ∈ l, ∀ s, f s e.1 e.2 = g s e.1 e.2) (s : σ) : scanList f s l = scanList g s l := by
  induction l generalizing s with
  | nil => rfl
  | cons entry rest ih =>
      obtain ⟨here, others⟩ := List.forall_mem_cons.1 same
      simp only [scanList, here, ih others]

end OrderedMap

namespace Period

open OrderedMap

/-- Two periods are the same up to a date: they apply in one place with one initialization, hold the same days
up to the date, and agree on which of these are compromised. -/
structure SameUpTo (d : Date) (p q : Period) : Prop where
  place : p.place = q.place
  initialization : p.initialization = q.initialization
  days {e : Date} : e ≤ d → p.day? e = q.day? e
  compromised {e : Date} : e ≤ d → (p.day? e).isSome = true → p.isCompromisedOn e = q.isCompromisedOn e

variable {d : Date} {p q r : Period}

theorem SameUpTo.refl (d : Date) (p : Period) : SameUpTo d p p :=
  ⟨rfl, rfl, fun _ => rfl, fun _ _ => rfl⟩

theorem SameUpTo.symm (h : SameUpTo d p q) : SameUpTo d q p :=
  ⟨h.place.symm, h.initialization.symm, fun upTo => (h.days upTo).symm,
    fun upTo held => (h.compromised upTo (h.days upTo ▸ held)).symm⟩

theorem SameUpTo.trans (first : SameUpTo d p q) (later : SameUpTo d q r) : SameUpTo d p r :=
  ⟨first.place.trans later.place, first.initialization.trans later.initialization,
    fun upTo => (first.days upTo).trans (later.days upTo),
    fun upTo held => (first.compromised upTo held).trans
      (later.compromised upTo (first.days upTo ▸ held))⟩

/-- The settled days up to a date come from a walk over the days up to it. -/
theorem settle_upTo {completion : Completion} (asks : p.category.completion = some completion) (d : Date) :
    p.settle.days.toList.filter (fun e => decide (e.1 ≤ d)) =
      (scanList (p.settleDay completion) p.initialResidual
        (p.days.toList.filter fun e => decide (e.1 ≤ d))).2 := by
  rw [settle_days asks]
  refine scanList_filter (fun e => decide (e ≤ d)) (p.days.ascending.imp fun {a b} before upTo => ?_) _
  exact decide_eq_true (Date.le_trans (Date.le_of_lt (of_decide_eq_true before)) (of_decide_eq_true upTo))

theorem SameUpTo.days_toList (h : SameUpTo d p q) :
    p.days.toList.filter (fun e => decide (e.1 ≤ d)) = q.days.toList.filter fun e => decide (e.1 ≤ d) := by
  have same : p.days.filter (fun e _ => decide (e ≤ d)) = q.days.filter fun e _ => decide (e ≤ d) := by
    refine OrderedMap.ext fun e => Option.ext fun day => ?_
    rw [get?_filter_eq_some, get?_filter_eq_some]
    exact and_congr_left fun upTo => iff_of_eq (congrArg (· = some day) (h.days (of_decide_eq_true upTo)))
  exact congrArg OrderedMap.toList same

theorem SameUpTo.settle_days (h : SameUpTo d p q) {e : Date} (upTo : e ≤ d) :
    p.settle.day? e = q.settle.day? e := by
  have category : p.category = q.category := (Prod.mk.inj h.place).1
  cases asks : p.category.completion with
  | none =>
    rw [settle_of_none asks, settle_of_none (category ▸ asks)]
    exact h.days upTo
  | some completion =>
    have residual : p.initialResidual = q.initialResidual := by
      rw [initialResidual, initialResidual, h.initialization]
    have alike : ∀ e ∈ p.days.toList.filter (fun e => decide (e.1 ≤ d)), ∀ residual,
        p.settleDay completion residual e.1 e.2 = q.settleDay completion residual e.1 e.2 := by
      intro e he residual
      obtain ⟨mem, upTo⟩ := List.mem_filter.1 he
      have held : (p.day? e.1).isSome = true := by rw [day?_eq_some.2 mem]; rfl
      rw [settleDay, settleDay, h.compromised (of_decide_eq_true upTo) held]
    have settled : p.settle.days.toList.filter (fun e => decide (e.1 ≤ d)) =
        q.settle.days.toList.filter fun e => decide (e.1 ≤ d) := by
      rw [settle_upTo asks, settle_upTo (category ▸ asks), scanList_congr alike, residual, h.days_toList]
    refine Option.ext fun day => ?_
    have held (p : Period) : p.settle.day? e = some day ↔
        (e, day) ∈ p.settle.days.toList.filter fun e => decide (e.1 ≤ d) := by
      rw [day?_eq_some, List.mem_filter, and_iff_left (decide_eq_true upTo)]
    rw [held, held, settled]

/-- What is the same up to a date is settled alike up to it. -/
theorem SameUpTo.settle (h : SameUpTo d p q) : SameUpTo d p.settle q.settle where
  place := by rw [place_of_terms (terms_settle p), place_of_terms (terms_settle q), h.place]
  initialization := by
    rw [initialization_of_terms (terms_settle p), initialization_of_terms (terms_settle q), h.initialization]
  days upTo := h.settle_days upTo
  compromised {e} upTo held := by
    have held : (p.day? e).isSome = true := by
      rw [Option.isSome_iff_ne_none] at held ⊢
      exact mt settle_day?_eq_none.2 held
    rw [isCompromisedOn_settle, isCompromisedOn_settle, h.compromised upTo held]

/-! Changes behind the cut-off. -/

theorem sameUpTo_onDay (p : Period) {date : Date} (behind : d < date) (change : PeriodDay → PeriodDay) :
    SameUpTo d p (p.onDay date change) where
  place := rfl
  initialization := rfl
  days {e} upTo := by
    have other : e ≠ date := by
      rintro rfl
      exact upTo behind
    rw [day?_onDay, if_neg other]
  compromised _ _ := rfl

theorem sameUpTo_compromise (p : Period) {error : CriticalError} (behind : d < error.date) :
    SameUpTo d p (p.compromise error) where
  place := rfl
  initialization := rfl
  days _ := rfl
  compromised {e} upTo _ := by
    rw [Bool.eq_iff_iff, isCompromisedOn_compromise]
    exact (or_iff_left fun late => Date.le_trans late upTo behind).symm

theorem sameUpTo_charge (p : Period) {c : Charge} (behind : d < c.absence.date) :
    SameUpTo d p (p.charge c) := by
  have counted : SameUpTo d p (p.counted c) :=
    ⟨(place_of_terms (terms_counted p c)).symm, (initialization_of_terms (terms_counted p c)).symm,
      fun _ => by rw [day?, day?, days_counted], fun {e} _ _ => (isCompromisedOn_charge p c e).symm⟩
  rw [charge_eq]
  exact counted.trans (sameUpTo_onDay _ behind _)

end Period

end Entitlement
