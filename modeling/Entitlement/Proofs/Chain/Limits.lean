import Mathlib.Data.List.Induction
import Entitlement.Proofs.Chain.CutOff
import Entitlement.Proofs.Chain.Metering

/-!
Limits hold unless they are flagged. The amount taken stops at the ends of its range, but whether a record fits
comes out as in exact numbers: below the greatest amount, a total that has stopped is past every limit. A period
whose charges all fit has taken no more than its limit, or than the balance it began with.
-/

namespace Entitlement

namespace Charge

theorem isAdmitted_eq_false {c : Charge} : c.isAdmitted = false ↔
    c.beforeInitialization = false ∧ 0 ≤ c.limit.val ∧ c.limit.val < c.takenBefore.val + c.amount.val := by
  simp only [isAdmitted, fits, Bool.or_eq_false_iff, decide_eq_false_iff_not, Amount.lt_def, Amount.zero_val]
  exact and_congr_right fun _ => by omega

end Charge

namespace Period

/-- Charges that were all admitted never take more than the limit, or than the opening balance. -/
theorem tally_le {p : Period} (nonneg : 0 ≤ p.limit.val) {charges : List Charge}
    (admitted : ∀ (earlier later : List Charge) (c : Charge), charges = earlier ++ c :: later →
      p.Assessed earlier c ∧ c.isAdmitted = true) :
    (tally p.opening charges).val ≤ max p.limit.val p.opening.val := by
  -- From the last charge backwards: it was assessed against the tally of those before it.
  induction charges using List.reverseRecOn with
  | nil => exact le_max_right _ _
  | append_singleton earlier c ih =>
    have before := ih fun first later c' split =>
      admitted first (later ++ [c]) c' (by rw [split, List.append_assoc, List.cons_append])
    obtain ⟨assessed, fits⟩ := admitted earlier [] c rfl
    rw [tally_concat]
    split
    · exact before
    · next late =>
      have room : ¬ p.limit.val < (tally p.opening earlier).val + c.amount.val := by
        intro exceeds
        have rejected := Charge.isAdmitted_eq_false.2 ⟨Bool.eq_false_iff.2 late, assessed.limit ▸ nonneg,
          by rw [assessed.limit, assessed.takenBefore]; exact exceeds⟩
        rw [fits] at rejected
        cases rejected
      rw [Amount.add_val]
      omega

namespace Metered

variable {working : Date → Option Amount} {met : List Absence} {p : Period} (h : Metered working met p)

include h

/-- Among records of distinct identifiers a charged one is flagged if its charge was not admitted. -/
theorem flagged_charge (distinct : (met.map (·.id)).Nodup) {c : Charge} (hc : c ∈ p.charges) :
    p.findings.contains c.absence.id .limitExceeded = true ↔ c.isAdmitted = false := by
  have ids : (p.charges.map fun c => c.absence.id).Nodup := by
    have sublist := h.records.map (·.id)
    rw [List.map_map] at sublist
    exact distinct.sublist sublist
  rw [h.flagged]
  constructor
  · rintro ⟨c', hc', same, rejected⟩
    exact List.inj_on_of_nodup_map ids hc' hc same ▸ rejected
  · exact fun rejected => ⟨c, hc, rfl, rejected⟩

/-- The charges that count are those of dates that are not prior. -/
theorem exactTotal_eq {earlier later : List Charge} (split : p.charges = earlier ++ later) :
    exactTotal earlier =
      ((earlier.filter fun c => !p.isPrior c.absence.date).map (·.amount.val)).sum := by
  have counted : ∀ c ∈ earlier, (!c.beforeInitialization) = !p.isPrior c.absence.date := by
    intro c hc
    obtain ⟨first, rest, rfl⟩ := List.append_of_mem hc
    rw [List.append_assoc, List.cons_append] at split
    rw [(h.assessed split).beforeInitialization]
  rw [exactTotal, List.filter_congr counted]

/-- A record is flagged exactly if what counts before it and its own amount exceed the limit in exact numbers. -/
theorem exceeds_iff (distinct : (met.map (·.id)).Nodup) (nonneg : 0 ≤ p.limit.val)
    (below : p.limit.val < 0x7fffffffffffffff) (amounts : ∀ c ∈ p.charges, 0 ≤ c.amount.val)
    {earlier later : List Charge} {c : Charge} (split : p.charges = earlier ++ c :: later)
    (late : p.isPrior c.absence.date = false) :
    p.findings.contains c.absence.id .limitExceeded = true ↔
      p.limit.val < p.opening.val +
        ((earlier.filter fun c => !p.isPrior c.absence.date).map (·.amount.val)).sum + c.amount.val := by
  have mem : c ∈ p.charges := split ▸ List.mem_append_right _ List.mem_cons_self
  have assessed := h.assessed split
  have own := amounts c mem
  have total := tally_val (fun c hc => amounts c (split ▸ List.mem_append_left _ hc)) p.opening
  rw [h.flagged_charge distinct mem, Charge.isAdmitted_eq_false, assessed.limit, assessed.takenBefore,
    assessed.beforeInitialization, total, h.exactTotal_eq split]
  simp only [late, nonneg, true_and]
  omega

/-- Without a limit nothing is flagged, nor is a record before the initialization. -/
theorem unflagged {a : Absence} (alone : ∀ b ∈ met, b.id = a.id → b = a)
    (spared : p.limit.val < 0 ∨ p.isPrior a.date = true) :
    p.findings.contains a.id .limitExceeded = false := by
  refine Bool.eq_false_iff.2 fun flag => ?_
  obtain ⟨c, hc, same, rejected⟩ := h.flagged.1 flag
  obtain ⟨earlier, later, split⟩ := List.append_of_mem hc
  have assessed := h.assessed split
  obtain ⟨late, nonneg, -⟩ := Charge.isAdmitted_eq_false.1 rejected
  obtain rfl := alone c.absence (h.records.subset (List.mem_map_of_mem hc)) same
  rcases spared with unlimited | prior
  · rw [assessed.limit] at nonneg
    omega
  · rw [assessed.beforeInitialization, prior] at late
    cases late

/-- If no charge is flagged, the period keeps within its limit or the balance it began with. -/
theorem taken_le (distinct : (met.map (·.id)).Nodup) (nonneg : 0 ≤ p.limit.val)
    (unflagged : ∀ c ∈ p.charges, p.findings.contains c.absence.id .limitExceeded = false) :
    p.taken.val ≤ max p.limit.val p.opening.val := by
  rw [h.taken]
  refine tally_le nonneg fun earlier later c split => ⟨h.assessed split, ?_⟩
  have mem : c ∈ p.charges := split ▸ List.mem_append_right _ List.mem_cons_self
  have admitted := mt (h.flagged_charge distinct mem).2 (by rw [unflagged c mem]; exact Bool.false_ne_true)
  simpa using admitted

end Metered

end Period

namespace Chain

open Period

variable {rules : RuleTree} {working : WorkingTime} {pivot : Pivot} {laid chain : Chain}
  {records : List Absence}

theorem taken_seedPeriod (p : Period) : (seedPeriod rules working pivot records p).taken = p.taken := by
  unfold seedPeriod
  split
  · rfl
  · apply (compromiseAll_terms _ _).2.trans
    unfold seed
    split <;> rfl

/-- Before any record comes in, a period has taken what it begins with. -/
theorem metered_seedPeriod (hlaid : layOut rules pivot = .ok laid) {p : Period} (hp : p ∈ laid.periods)
    (minutes : Date → Option Amount) :
    Metered minutes [] (seedPeriod rules working pivot records p) := by
  obtain ⟨-, natural, range, -, -, empty⟩ := mem_layOut hlaid hp
  have days : (seedPeriod rules working pivot records p).days = ∅ :=
    (days_seedPeriod rules working pivot records p).trans ((layOut_fresh hlaid).2.2 p hp)
  have charges : (seedPeriod rules working pivot records p).charges = [] := by
    rw [Period.charges, days]
    rfl
  refine ⟨fun {d day} found => ?_, ?_, fun {c} hc => ?_, ?_, fun {earlier later c} split => ?_, fun {id} => ?_⟩
  · rw [day?, days] at found
    cases found
  · rw [charges]
    exact List.Sublist.refl _
  · rw [charges] at hc
    exact absurd hc List.not_mem_nil
  · rw [charges, taken_seedPeriod, opening, initialization_seedPeriod, empty]
    rfl
  · rw [charges] at split
    exact absurd split.symm (by simp)
  · have unflagged : (seedPeriod rules working pivot records p).findings.contains id .limitExceeded =
        false := by
      rw [contains_seedPeriod, empty]
      rfl
    rw [unflagged, charges]
    simp

/-- Every period of a filled chain meters the records that concern the chain. -/
theorem metered_fill (hlaid : layOut rules pivot = .ok laid)
    (h : fill rules working pivot laid records = .ok chain) :
    ∀ s ∈ chain.periods,
      Metered (working laid.person) (concerned laid.periods laid.person records) s := by
  obtain ⟨-, rfl⟩ := fill_ok h
  intro s hs
  obtain ⟨q, hq, rfl⟩ := List.mem_map.1 hs
  have sorted : ([] ++ concerned laid.periods laid.person records).Pairwise
      fun a b : Absence => a.date ≤ b.date :=
    (Absence.inOrder_sorted _).imp Absence.date_le_of_notAfter
  refine (metered_bringAll sorted (fun p hp => ?_) q hq).settle
  obtain ⟨first, hfirst, rfl⟩ := List.mem_map.1 hp
  exact metered_seedPeriod hlaid hfirst _

/-- How the limit of a period holds against the records charged to it, in the order of date and identifier. -/
structure LimitHolds (working : Date → Option Amount) (records : List Absence) (s : Period) : Prop where
  ordered : (s.charges.map (·.absence)).Sublist (Absence.inOrder records)
  weighs {c : Charge} : c ∈ s.charges →
    c.absence.weight? s.unit (working c.absence.date) = some c.amount
  /-- A record is flagged exactly if the exact total goes over the limit with it. -/
  exceeds {earlier later : List Charge} {c : Charge} : 0 ≤ s.limit.val → s.limit.val < 0x7fffffffffffffff →
    (∀ c ∈ s.charges, 0 ≤ c.amount.val) → s.charges = earlier ++ c :: later →
      s.isPrior c.absence.date = false →
        (s.findings.contains c.absence.id .limitExceeded = true ↔ s.limit.val < s.opening.val +
          ((earlier.filter fun c => !s.isPrior c.absence.date).map (·.amount.val)).sum + c.amount.val)
  unflagged {a : Absence} : a ∈ records → s.limit.val < 0 ∨ s.isPrior a.date = true →
    s.findings.contains a.id .limitExceeded = false
  bounded : 0 ≤ s.limit.val →
    (∀ c ∈ s.charges, s.findings.contains c.absence.id .limitExceeded = false) →
      s.taken.val ≤ max s.limit.val s.opening.val

/-- Limits hold in every period of a chain that was filled with records of distinct identifiers, unless they are
flagged. -/
theorem fill_limits (hlaid : layOut rules pivot = .ok laid) (distinct : (records.map (·.id)).Nodup)
    (h : fill rules working pivot laid records = .ok chain) {s : Period} (hs : s ∈ chain.periods) :
    LimitHolds (working laid.person) records s := by
  have metered := metered_fill hlaid h s hs
  have sublist : (concerned laid.periods laid.person records).Sublist (Absence.inOrder records) := by
    rw [concerned, ← Absence.inOrder_filter]
    exact List.filter_sublist
  have once : ((concerned laid.periods laid.person records).map (·.id)).Nodup :=
    (((Absence.inOrder_perm records).map _).nodup_iff.2 distinct).sublist (sublist.map _)
  refine ⟨metered.records.trans sublist, metered.weighs, fun nonneg below amounts split late =>
    metered.exceeds_iff once nonneg below amounts split late, fun {a} ha => metered.unflagged ?_,
    metered.taken_le once⟩
  intro b hb same
  exact List.inj_on_of_nodup_map distinct (mem_concerned.1 hb).1 ha same

def sampleLimited : RuleTree :=
  .ofLists [⟨"LEAVE", "", .programmed, .year, some ⟨.units, .ofList ["LV"], 300⟩, none, none, false, true⟩] []

def sampleEntered : Pivot :=
  ⟨1, "LEAVE", .sample 2024 3 1, ⟨[⟨.sample 2020 1 1, none⟩], [],
    [⟨"LEAVE", .sample 2024 3 1, 100, 0, none⟩]⟩⟩

def sampleMarch : List Absence :=
  [⟨⟨1, "LV", .sample 2024 3 7, .allDay, none, none⟩, 4⟩,
    ⟨⟨1, "LV", .sample 2024 2 9, .allDay, none, none⟩, 1⟩,
    ⟨⟨1, "LV", .sample 2024 3 5, .allDay, none, none⟩, 2⟩,
    ⟨⟨1, "LV", .sample 2024 3 6, .allDay, none, none⟩, 3⟩]

def sampleFilled : Option (Chain × Chain) := do
  let laid ← (layOut sampleLimited sampleEntered).toOption
  let chain ← (fill sampleLimited .unknown sampleEntered laid sampleMarch).toOption
  return (laid, chain)

/-- The limit and the opening balance of a period, and its charges with their flags. -/
def sampleStanding (s : Period) : Int × Int × List (AbsenceId × Int × Bool) :=
  (s.limit.val, s.opening.val, s.charges.map fun c =>
    (c.absence.id, c.amount.val, s.findings.contains c.absence.id .limitExceeded))

/-- The limit of the sample holds, and the last of its records alone is flagged. -/
theorem fill_limits_march : ∃ laid chain, layOut sampleLimited sampleEntered = .ok laid ∧
    (sampleMarch.map (·.id)).Nodup ∧
      fill sampleLimited .unknown sampleEntered laid sampleMarch = .ok chain ∧
        chain.periods.map sampleStanding =
          [(300, 100, [(1, 100, false), (2, 100, false), (3, 100, false), (4, 100, true)])] ∧
          ∀ s ∈ chain.periods, LimitHolds (WorkingTime.unknown laid.person) sampleMarch s := by
  have run : (sampleFilled.any fun r => decide (r.2.periods.map sampleStanding =
      [(300, 100, [(1, 100, false), (2, 100, false), (3, 100, false), (4, 100, true)])])) = true := by cbv
  obtain ⟨⟨laid, chain⟩, found, answers⟩ := (Option.any_eq_true _ _).1 run
  simp only [sampleFilled, Option.bind_eq_bind, Option.bind_eq_some_iff] at found
  obtain ⟨_, hlaid, _, filled, same⟩ := found
  cases same
  have hlaid := ok_of_toOption hlaid
  have filled := ok_of_toOption filled
  have distinct : (sampleMarch.map (·.id)).Nodup := by decide
  exact ⟨laid, chain, hlaid, distinct, filled, of_decide_eq_true answers,
    fun s hs => fill_limits hlaid distinct filled hs⟩

end Chain

end Entitlement
