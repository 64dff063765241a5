import Mathlib.Algebra.Order.BigOperators.Group.List
import Mathlib.Algebra.Order.Ring.Int
import Entitlement.Proofs.Chain.Lossless
import Entitlement.Proofs.Ordered.Latest

/-!
How a period meters what is charged to it. Records come in by date, so each charge stands behind the earlier
ones; the amount taken is their running total, each charge was assessed against the total before it, and the
flags name the charges that were not admitted.
-/

namespace Entitlement

/-- What is taken after some charges, from an opening balance on. The sum stops at the ends of the range after
each of them. -/
def tally (opening : Amount) (charges : List Charge) : Amount :=
  charges.foldl (fun taken c => if c.beforeInitialization then taken else taken + c.amount) opening

def exactTotal (charges : List Charge) : Int :=
  ((charges.filter fun c => !c.beforeInitialization).map (·.amount.val)).sum

theorem tally_concat (opening : Amount) (charges : List Charge) (c : Charge) :
    tally opening (charges ++ [c]) = if c.beforeInitialization then tally opening charges
      else tally opening charges + c.amount := by
  rw [tally, List.foldl_append, ← tally]
  rfl

theorem exactTotal_nonneg {charges : List Charge} (nonneg : ∀ c ∈ charges, 0 ≤ c.amount.val) :
    0 ≤ exactTotal charges :=
  List.sum_nonneg (List.forall_mem_map.2 fun c hc => nonneg c (List.mem_filter.1 hc).1)

/-- Amounts that are not negative are tallied exactly until the tally reaches the end of the range, where it
stays. -/
theorem tally_val {charges : List Charge} (nonneg : ∀ c ∈ charges, 0 ≤ c.amount.val) (opening : Amount) :
    (tally opening charges).val = min (opening.val + exactTotal charges) 0x7fffffffffffffff := by
  induction charges generalizing opening with
  | nil =>
    have upper := opening.upper
    show opening.val = min (opening.val + 0) _
    omega
  | cons c rest ih =>
    obtain ⟨first, others⟩ := List.forall_mem_cons.1 nonneg
    have total := exactTotal_nonneg others
    cases prior : c.beforeInitialization with
    | true =>
      have skipped : exactTotal (c :: rest) = exactTotal rest := by simp [exactTotal, prior]
      rw [skipped, ← ih others, tally, List.foldl_cons, if_pos prior]
      rfl
    | false =>
      have counted : exactTotal (c :: rest) = c.amount.val + exactTotal rest := by
        simp [exactTotal, prior]
      have lower := opening.lower
      rw [tally, List.foldl_cons, if_neg (by simp [prior]), ← tally, ih others, Amount.add_val, counted]
      omega

namespace Period

def opening (p : Period) : Amount :=
  p.initialization.elim 0 (·.taken)

/-- On the last date of a period its charges end with those of that date. -/
theorem charges_onDay {p : Period} (date : Date)
    (latest : ∀ d day, p.day? d = some day → d ≤ date) :
    ∃ front, p.charges = front ++ (p.dayAt date).charges ∧
      ∀ change, (p.onDay date change).charges = front ++ (change (p.dayAt date)).charges := by
  obtain ⟨front, old, new⟩ := OrderedMap.insert_latest (m := p.days) (k := date) fun e he =>
    decide_eq_false (latest e.1 e.2 (day?_eq_some.2 he))
  refine ⟨front.flatMap (·.2.charges), ?_, fun change => ?_⟩
  · rw [charges, OrderedMap.values, List.flatMap_map, old, List.flatMap_append]
    have last : ((p.days.get? date).map fun day => (date, day)).toList.flatMap (·.2.charges) =
        (p.dayAt date).charges := by
      cases found : p.days.get? date with
      | none =>
        rw [dayAt_of_none found]
        rfl
      | some day =>
        rw [dayAt_of_day? found]
        exact List.flatMap_singleton ..
    rw [last]
  · rw [charges, OrderedMap.values, List.flatMap_map, onDay, new, List.flatMap_append]
    simp

theorem charges_of_days {p q : Period} (h : q.days = p.days) : q.charges = p.charges := by
  rw [charges, charges, h]

/-- A charge on the last date of a period comes last. -/
theorem charges_charge {p : Period} {c : Charge} (latest : ∀ d day, p.day? d = some day → d ≤ c.absence.date) :
    (p.charge c).charges = p.charges ++ [c] := by
  have days := days_counted p c
  obtain ⟨front, old, new⟩ := (p.counted c).charges_onDay c.absence.date fun d day found =>
    latest d day (by rwa [day?, days] at found)
  rw [charge_eq, new, ← charges_of_days days, old, List.append_assoc]

theorem charges_settle (p : Period) : p.settle.charges = p.charges := by
  cases asks : p.category.completion with
  | none => rw [settle_of_none asks]
  | some completion =>
    have same := OrderedMap.scanList_map (g := PeriodDay.charges) (h := PeriodDay.charges)
      (fun residual d day => (p.settleDay_same completion residual d day).charges) p.initialResidual
      p.days.toList
    rw [charges, charges, OrderedMap.values, OrderedMap.values, List.flatMap_map, List.flatMap_map,
      settle_days asks, List.flatMap_def, List.flatMap_def, same]

theorem opening_of_terms {p q : Period} (h : q.terms = p.terms) : q.opening = p.opening := by
  rw [opening, opening, initialization_of_terms h]

theorem unit_of_terms {p q : Period} (h : q.terms = p.terms) : q.unit = p.unit := by
  rw [unit, unit, unit?, unit?, (terms_eq_iff.1 h).1]

structure Assessed (p : Period) (earlier : List Charge) (c : Charge) : Prop where
  limit : c.limit = p.limit
  takenBefore : c.takenBefore = tally p.opening earlier
  beforeInitialization : c.beforeInitialization = p.isPrior c.absence.date

theorem Assessed.of_terms {p q : Period} {earlier : List Charge} {c : Charge} (h : p.Assessed earlier c)
    (terms : q.terms = p.terms) : q.Assessed earlier c where
  limit := h.limit.trans (terms_eq_iff.1 terms).2.2.1.symm
  takenBefore := by rw [h.takenBefore, opening_of_terms terms]
  beforeInitialization := by rw [h.beforeInitialization, isPrior_of_terms terms]

/-- What a period holds of the records brought into it so far. Its days are dates of theirs, its charges stand in
their order, each assessed against those before it, and flagged are the charges that were not admitted. -/
structure Metered (working : Date → Option Amount) (met : List Absence) (p : Period) : Prop where
  days {d : Date} {day : PeriodDay} : p.day? d = some day → ∃ a ∈ met, a.date = d
  records : (p.charges.map (·.absence)).Sublist met
  weighs {c : Charge} : c ∈ p.charges →
    c.absence.weight? p.unit (working c.absence.date) = some c.amount
  taken : p.taken = tally p.opening p.charges
  assessed {earlier later : List Charge} {c : Charge} : p.charges = earlier ++ c :: later →
    p.Assessed earlier c
  flagged {id : AbsenceId} : p.findings.contains id .limitExceeded = true ↔
    ∃ c ∈ p.charges, c.absence.id = id ∧ c.isAdmitted = false

namespace Metered

variable {working : Date → Option Amount} {met met' : List Absence} {p q : Period} {record : Absence}

/-- What charges nothing and flags nothing leaves the metering as it is. -/
theorem of_same (h : Metered working met p) (terms : q.terms = p.terms) (taken : q.taken = p.taken)
    (charges : q.charges = p.charges)
    (findings : ∀ id, q.findings.contains id .limitExceeded = p.findings.contains id .limitExceeded)
    (more : met.Sublist met')
    (days : ∀ d day, q.day? d = some day → (∃ old, p.day? d = some old) ∨ ∃ a ∈ met', a.date = d) :
    Metered working met' q where
  days {d day} found := by
    rcases days d day found with ⟨old, stands⟩ | new
    · obtain ⟨a, ha, dated⟩ := h.days stands
      exact ⟨a, more.subset ha, dated⟩
    · exact new
  records := charges ▸ h.records.trans more
  weighs hc := by
    rw [unit_of_terms terms]
    exact h.weighs (charges ▸ hc)
  taken := by rw [taken, charges, opening_of_terms terms, h.taken]
  assessed split := (h.assessed (charges ▸ split)).of_terms terms
  flagged {id} := by rw [findings id, h.flagged, charges]

theorem latest (h : Metered working met p) (last : ∀ a ∈ met, a.date ≤ record.date) :
    ∀ d day, p.day? d = some day → d ≤ record.date := by
  intro d day found
  obtain ⟨a, ha, rfl⟩ := h.days found
  exact last a ha

theorem compromise (h : Metered working met p) (error : CriticalError) :
    Metered working met (p.compromise error) :=
  h.of_same rfl rfl rfl (fun _ => Findings.contains_addCritical ..) (List.Sublist.refl _)
    fun _ day found => .inl ⟨day, found⟩

theorem charge (h : Metered working met p) (last : ∀ a ∈ met, a.date ≤ record.date) {amount : Amount}
    (computed : record.weight? p.unit (working record.date) = some amount) :
    Metered working (met ++ [record]) (p.charge (p.assess record amount)) := by
  have terms := terms_charge p (p.assess record amount)
  have charges : (p.charge (p.assess record amount)).charges = p.charges ++ [p.assess record amount] :=
    charges_charge (h.latest last)
  refine ⟨fun {d day} found => ?_, ?_, fun {c} hc => ?_, ?_, fun {earlier later c} split => ?_, fun {id} => ?_⟩
  · rw [charge_eq, day?_onDay] at found
    split at found
    · next same => exact ⟨record, List.mem_append_right _ (List.mem_singleton_self _), same.symm⟩
    · rw [day?, days_counted] at found
      obtain ⟨a, ha, dated⟩ := h.days found
      exact ⟨a, List.mem_append_left _ ha, dated⟩
  · rw [charges, List.map_append]
    exact h.records.append (List.Sublist.refl _)
  · rw [unit_of_terms terms]
    rcases List.mem_append.1 (charges ▸ hc) with old | new
    · exact h.weighs old
    · obtain rfl := List.mem_singleton.1 new
      exact computed
  · rw [charges, opening_of_terms terms, tally_concat, ← h.taken, taken_charge]
  · rw [charges] at split
    rcases List.eq_nil_or_concat later with rfl | ⟨between, last, rfl⟩
    · obtain ⟨rfl, same⟩ := List.append_inj' split rfl
      obtain rfl := List.singleton_inj.1 same
      exact Assessed.of_terms ⟨rfl, h.taken, rfl⟩ terms
    · rw [List.concat_eq_append, ← List.cons_append, ← List.append_assoc] at split
      exact (h.assessed (List.append_inj' split rfl).1).of_terms terms
  · rw [charge_findings, contains_flag, h.flagged, charges]
    simp only [List.mem_append, List.mem_singleton, or_and_right, exists_or, exists_eq_left, true_and]
    exact or_congr_right (and_congr_left' eq_comm)

/-- A record that reaches a period is charged to it or compromises it. -/
theorem receive (h : Metered working met p) (last : ∀ a ∈ met, a.date ≤ record.date) :
    Metered working (met ++ [record]) (p.receive (working record.date) record) := by
  cases computed : record.weight? p.unit (working record.date) with
  | none =>
    rw [receive_of_none computed]
    exact (h.compromise _).of_same rfl rfl rfl (fun _ => rfl) (List.sublist_append_left _ _)
      fun _ day found => .inl ⟨day, found⟩
  | some amount =>
    rw [receive_of_some computed]
    exact h.charge last computed

/-- What is put on the last date without being charged leaves the metering as it is. -/
theorem onDay (h : Metered working met p) (mem : record ∈ met) (last : ∀ a ∈ met, a.date ≤ record.date)
    {change : PeriodDay → PeriodDay} (same : ∀ day, (change day).charges = day.charges) :
    Metered working met (p.onDay record.date change) := by
  obtain ⟨front, old, new⟩ := charges_onDay record.date (h.latest last)
  refine h.of_same rfl rfl ?_ (fun _ => rfl) (List.Sublist.refl _) fun d day found => ?_
  · rw [new, old, same]
  · rw [day?_onDay] at found
    split at found
    · next on => exact .inr ⟨record, mem, on.symm⟩
    · exact .inl ⟨day, found⟩

theorem attach (h : Metered working met p) (mem : record ∈ met) (last : ∀ a ∈ met, a.date ≤ record.date) :
    Metered working met (Chain.attach (working record.date) record p) :=
  Chain.attach_steps h (fun _ => h.onDay mem last fun _ => rfl) (fun _ => h.compromise _)
    fun _ metered => metered.onDay mem last fun _ => rfl

theorem settle (h : Metered working met p) : Metered working met p.settle := by
  refine h.of_same (terms_settle p) (taken_settle p) (charges_settle p)
    (fun _ => by rw [settle_findings]) (List.Sublist.refl _) fun d day found => .inl ?_
  refine Option.ne_none_iff_exists'.1 (mt settle_day?_eq_none.2 ?_)
  rw [found]
  exact Option.some_ne_none day

end Metered

end Period

namespace Chain

open Period

variable {working : Date → Option Amount} {met records : List Absence}

theorem metered_bring {record : Absence} (last : ∀ a ∈ met, a.date ≤ record.date) {ps : List Period}
    (h : ∀ p ∈ ps, Metered working met p) :
    ∀ q ∈ bring (working record.date) record ps, Metered working (met ++ [record]) q := by
  have mem : record ∈ met ++ [record] := List.mem_append_right _ (List.mem_singleton_self _)
  have all : ∀ a ∈ met ++ [record], a.date ≤ record.date := by
    intro a ha
    rcases List.mem_append.1 ha with old | new
    · exact last a old
    · exact List.mem_singleton.1 new ▸ Date.le_refl _
  have offered : List.Forall₂ (fun p q => Metered working met p → Metered working (met ++ [record]) q) ps
      (offer (working record.date) record ps).1 :=
    offer_steps
      (fun p h => h.of_same rfl rfl rfl (fun _ => rfl) (List.sublist_append_left _ _)
        fun _ day found => .inl ⟨day, found⟩)
      (fun p _ h => h.receive last) ps
  intro q hq
  obtain ⟨r, hr, rfl⟩ := List.mem_map.1 hq
  obtain ⟨p, hp, metered⟩ := forall₂_mem_right offered hr
  exact (metered (h p hp)).attach mem all

/-- Records that come in by date are metered by every period. -/
theorem metered_bringAll (sorted : (met ++ records).Pairwise fun a b => a.date ≤ b.date) {ps : List Period}
    (h : ∀ p ∈ ps, Metered working met p) :
    ∀ q ∈ bringAll working records ps, Metered working (met ++ records) q := by
  induction records generalizing met ps with
  | nil =>
    rw [List.append_nil]
    exact h
  | cons record rest ih =>
    have last : ∀ a ∈ met, a.date ≤ record.date := fun a ha =>
      (List.pairwise_append.1 sorted).2.2 a ha record List.mem_cons_self
    rw [List.append_cons] at sorted ⊢
    exact ih sorted (metered_bring last h)

end Chain

end Entitlement
