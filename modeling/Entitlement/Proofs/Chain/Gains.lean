import Entitlement.Proofs.Chain.Bringing
import Entitlement.Proofs.Chain.Concerned
import Entitlement.Proofs.Period.Settling
import Entitlement.Proofs.Problem.Findings

/-!
What a chain gains from the records it is filled with. Charges, problems and errors come from records
brought in; the only problem is an exceeded limit, and the record is one that a period of the chain
takes. Those that take part are the records concerned.
-/

namespace Entitlement

theorem Period.critical_flag (p : Period) (c : Charge) :
    (p.flag c).findings.critical = p.findings.critical := by
  unfold flag
  split <;> rfl

theorem Period.contains_flag {p : Period} {c : Charge} {id : AbsenceId} {problem : Problem} :
    (p.flag c).findings.contains id problem = true ↔ p.findings.contains id problem = true ∨
      (id = c.absence.id ∧ problem = .limitExceeded ∧ c.isAdmitted = false) := by
  unfold flag
  split
  · next admitted => simp [admitted]
  · next rejected => simp [Findings.contains_addProblem, rejected]

namespace Chain

/-- What a period gains comes from the records brought in: a charge stands on the date of one that the
period takes, a problem is a limit that such a record exceeds, and an error names one of them. -/
structure Gains (records : List Absence) (p q : Period) : Prop where
  place : q.place = p.place
  charges {d : Date} {c : Charge} : c ∈ (q.dayAt d).charges → c ∈ (p.dayAt d).charges ∨
    (c.absence ∈ records ∧ c.absence.date = d ∧ p.takes c.absence = true)
  problems {id : AbsenceId} {problem : Problem} : q.findings.contains id problem = true →
    p.findings.contains id problem = true ∨
      (problem = .limitExceeded ∧ ∃ a ∈ records, a.id = id ∧ p.takes a = true)
  errors {error : CriticalError} : error ∈ q.findings.critical →
    error ∈ p.findings.critical ∨ ∃ a ∈ records, error.absence = some a.id

theorem gains_refl (records : List Absence) (p : Period) : Gains records p p :=
  ⟨rfl, .inl, .inl, .inl⟩

theorem Gains.trans {some others all : List Absence} {p q r : Period} (first : Gains some p q)
    (later : Gains others q r) (left : ∀ a ∈ some, a ∈ all) (right : ∀ a ∈ others, a ∈ all) :
    Gains all p r := by
  have takes (a : Absence) : q.takes a = p.takes a := Period.takes_congr first.place a
  refine ⟨later.place.trans first.place, fun {d c} h => ?_, fun {id problem} h => ?_,
    fun {error} h => ?_⟩
  · rcases later.charges h with old | ⟨mem, dated, taken⟩
    · rcases first.charges old with older | ⟨mem, dated, taken⟩
      · exact .inl older
      · exact .inr ⟨left _ mem, dated, taken⟩
    · exact .inr ⟨right _ mem, dated, takes _ ▸ taken⟩
  · rcases later.problems h with old | ⟨exceeded, a, ha, same, taken⟩
    · rcases first.problems old with older | ⟨exceeded, a, ha, same, taken⟩
      · exact .inl older
      · exact .inr ⟨exceeded, a, left a ha, same, taken⟩
    · exact .inr ⟨exceeded, a, right a ha, same, takes a ▸ taken⟩
  · rcases later.errors h with old | ⟨a, ha, named⟩
    · rcases first.errors old with older | ⟨a, ha, named⟩
      · exact .inl older
      · exact .inr ⟨a, left a ha, named⟩
    · exact .inr ⟨a, right a ha, named⟩

theorem gains_compromise (record : Absence) (p : Period) :
    Gains [record] p (p.compromise (p.amountError record)) where
  place := rfl
  charges := .inl
  problems {id problem} h := by
    rw [Period.compromise, Findings.contains_addCritical] at h
    exact .inl h
  errors {error} h := by
    rcases Findings.mem_addCritical.1 h with old | rfl
    · exact .inl old
    · exact .inr ⟨record, List.mem_singleton_self _, rfl⟩

theorem gains_charge {p : Period} {record : Absence} (amount : Amount)
    (takes : p.takes record = true) :
    Gains [record] p (p.charge (p.assess record amount)) := by
  refine ⟨Period.place_of_terms (Period.terms_charge p _), fun {d c} h => ?_,
    fun {id problem} h => ?_, fun {error} h => ?_⟩
  · rw [Period.dayAt_charge] at h
    split at h
    · next same =>
      rcases List.mem_append.1 h with old | new
      · exact .inl old
      · rw [List.mem_singleton.1 new]
        exact .inr ⟨List.mem_singleton_self _, same.symm, takes⟩
    · exact .inl h
  · rw [Period.charge_findings] at h
    rcases Period.contains_flag.1 h with old | ⟨same, exceeded, -⟩
    · exact .inl old
    · exact .inr ⟨exceeded, record, List.mem_singleton_self _, same.symm, takes⟩
  · rw [Period.charge_findings, Period.critical_flag] at h
    exact .inl h

theorem gains_receive (working : Option Amount) {record : Absence} {p : Period}
    (takes : p.takes record = true) : Gains [record] p (p.receive working record) := by
  unfold Period.receive
  split
  · exact gains_compromise record p
  · exact gains_charge _ takes

theorem gains_attach (working : Option Amount) (record : Absence) (p : Period) :
    Gains [record] p (attach working record p) := by
  refine attach_steps (gains_refl _ p) (fun amount => ⟨rfl, fun {d c} h => .inl ?_, .inl, .inl⟩)
    (fun _ => gains_compromise record p) fun q gained => ⟨gained.place, fun {d c} h => ?_,
      gained.problems, gained.errors⟩
  · rwa [Period.charges_addCompletion] at h
  · rw [Period.charges_addReplacing] at h
    exact gained.charges h

theorem offer_gains (working : Option Amount) (record : Absence) (ps : List Period) :
    List.Forall₂ (Gains [record]) ps (offer working record ps).1 :=
  offer_steps (gains_refl _) (fun _ takes => gains_receive working takes) ps

theorem bring_gains (working : Option Amount) (record : Absence) (ps : List Period) :
    List.Forall₂ (Gains [record]) ps (bring working record ps) := by
  simp only [bring, List.forall₂_map_right_iff]
  exact (offer_gains working record ps).imp fun p q offered =>
    offered.trans (gains_attach working record q) (fun _ h => h) fun _ h => h

/-- What holds of each step holds of a run: the periods gain from all the records. -/
theorem foldl_gains {step : List Period → Absence → List Period}
    (h : ∀ ps a, List.Forall₂ (Gains [a]) ps (step ps a)) (records : List Absence)
    (ps : List Period) : List.Forall₂ (Gains records) ps (records.foldl step ps) := by
  induction records generalizing ps with
  | nil => exact List.forall₂_same.2 fun p _ => gains_refl _ p
  | cons a rest ih =>
    refine forall₂_comp (R := Gains [a]) (S := Gains rest) (fun p q r first later => ?_) (h ps a)
      (ih _)
    refine first.trans later (fun b hb => ?_) fun b hb => List.mem_cons_of_mem _ hb
    rw [List.mem_singleton.1 hb]
    exact List.mem_cons_self

theorem bringAll_gains (working : Date → Option Amount) (records : List Absence) (ps : List Period) :
    List.Forall₂ (Gains records) ps (bringAll working records ps) :=
  foldl_gains (fun ps a => bring_gains (working a.date) a ps) records ps

theorem findings_compromiseAll (errors : List CriticalError) (p : Period) :
    (errors.foldl Period.compromise p).findings = errors.foldl Findings.addCritical p.findings := by
  induction errors generalizing p with
  | nil => rfl
  | cons error rest ih => exact ih (p.compromise error)

theorem contains_seedPeriod (rules : RuleTree) (working : WorkingTime) (pivot : Pivot)
    (records : List Absence) (p : Period) (id : AbsenceId) (problem : Problem) :
    (seedPeriod rules working pivot records p).findings.contains id problem =
      p.findings.contains id problem := by
  unfold seedPeriod
  split
  · rfl
  · rw [findings_compromiseAll, Findings.contains_addCriticals, Period.findings_seed]

variable {rules : RuleTree} {working : WorkingTime} {pivot : Pivot} {laid chain : Chain}
  {records : List Absence}

structure Gathered (chain : Chain) : Prop where
  nodup : chain.findings.critical.Nodup
  critical {error : CriticalError} : error ∈ chain.findings.critical ↔
    ∃ s ∈ chain.periods, error ∈ s.findings.critical
  problems {id : AbsenceId} {problem : Problem} : chain.findings.contains id problem = true ↔
    ∃ s ∈ chain.periods, s.findings.contains id problem = true

theorem gathered_fill (hlaid : layOut rules pivot = .ok laid)
    (h : fill rules working pivot laid records = .ok chain) : chain.Gathered := by
  obtain ⟨-, blank, -⟩ := layOut_empty hlaid
  obtain ⟨-, rfl⟩ := fill_ok h
  refine ⟨?_, fun {error} => ?_, fun {id problem} => ?_⟩
  · apply Findings.nodup_foldl_merge
    rw [blank]
    exact List.nodup_nil
  · apply (Findings.mem_critical_foldl_merge _).trans
    rw [blank]
    exact or_iff_right List.not_mem_nil
  · apply (Findings.contains_foldl_merge _ _ _ _ _).trans
    rw [blank]
    exact or_iff_right Bool.false_ne_true

/-- A problem that a chain holds against a record is an exceeded limit of a period that takes it. -/
theorem fill_flags (hlaid : layOut rules pivot = .ok laid)
    (h : fill rules working pivot laid records = .ok chain) {id : AbsenceId} {problem : Problem}
    (flag : chain.findings.contains id problem = true) : problem = .limitExceeded ∧
      ∃ a ∈ records, a.id = id ∧ a.person = laid.person ∧ ∃ p ∈ laid.periods, p.takes a = true := by
  obtain ⟨-, -, -, empty⟩ := layOut_empty hlaid
  obtain ⟨s, hs, flag⟩ := (gathered_fill hlaid h).problems.1 flag
  obtain ⟨-, rfl⟩ := fill_ok h
  obtain ⟨q, hq, rfl⟩ := List.mem_map.1 hs
  rw [Period.settle_findings] at flag
  obtain ⟨seeded, hseeded, gains⟩ := forall₂_mem_right (bringAll_gains _ _ _) hq
  obtain ⟨p, hp, rfl⟩ := List.mem_map.1 hseeded
  rcases gains.problems flag with old | ⟨exceeded, a, ha, same, takes⟩
  · rw [contains_seedPeriod] at old
    obtain ⟨category, natural, range, rfl⟩ := empty p hp
    cases old
  · obtain ⟨mem, person, -⟩ := mem_concerned.1 ha
    rw [Period.takes_congr (seedPeriod_place rules working pivot records p)] at takes
    exact ⟨exceeded, a, mem, same, person, p, hp, takes⟩

/-- The records that take part in a chain are the person's that concern a period. -/
theorem mem_participants_fill (hlaid : layOut rules pivot = .ok laid)
    (h : fill rules working pivot laid records = .ok chain) {id : AbsenceId} :
    id ∈ chain.participants ↔ ∃ a ∈ records, a.id = id ∧ a.person = laid.person ∧
      ∃ p ∈ laid.periods, p.concerns a = true := by
  obtain ⟨-, -, participants, -⟩ := layOut_empty hlaid
  obtain ⟨-, rfl⟩ := fill_ok h
  show id ∈ joined laid.periods laid.participants _ ↔ _
  rw [mem_joined, participants]
  simp only [OrderedSet.mem_empty, false_or, mem_concerned]
  constructor
  · rintro ⟨a, ⟨mem, person, -⟩, same, concerned⟩
    exact ⟨a, mem, same, person, concerned⟩
  · rintro ⟨a, mem, same, person, concerned⟩
    exact ⟨a, ⟨mem, person, concerned⟩, same, concerned⟩

end Chain

end Entitlement
