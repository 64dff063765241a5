import Entitlement.Proofs.Chain.Gains

/-!
The traces of one record in the periods of a chain: its charges, the errors that name it, and whether it
is flagged. Records with other identifiers leave these alone, so what the record itself has left when it was
brought in is what stands there in the end.
-/

namespace Entitlement

namespace Findings

def errorsOf (findings : Findings) (id : AbsenceId) : List CriticalError :=
  findings.critical.filter fun error => error.absence = some id

theorem mem_errorsOf {findings : Findings} {id : AbsenceId} {error : CriticalError} :
    error ∈ findings.errorsOf id ↔ error ∈ findings.critical ∧ error.absence = some id := by
  simp [errorsOf]

theorem errorsOf_addCritical_of_ne {error : CriticalError} {id : AbsenceId}
    (h : error.absence ≠ some id) (findings : Findings) :
    (findings.addCritical error).errorsOf id = findings.errorsOf id := by
  unfold addCritical
  split
  · rfl
  · simp [errorsOf, h]

/-- An error that names a record is the only one, however often it is raised. -/
theorem errorsOf_addCritical {error : CriticalError} {id : AbsenceId} (named : error.absence = some id)
    {findings : Findings} (h : findings.errorsOf id = [] ∨ findings.errorsOf id = [error]) :
    (findings.addCritical error).errorsOf id = [error] := by
  unfold addCritical
  split
  · next held =>
    rcases h with none | sole
    · have := mem_errorsOf.2 ⟨held, named⟩
      rw [none] at this
      exact absurd this List.not_mem_nil
    · exact sole
  · next new =>
    rcases h with none | sole
    · rw [errorsOf] at none
      simp [errorsOf, none, named]
    · have : error ∈ findings.errorsOf id := by
        rw [sole]
        exact List.mem_singleton_self _
      exact absurd (mem_errorsOf.1 this).1 new

end Findings

namespace Period

def chargesOf (p : Period) (id : AbsenceId) (d : Date) : List Charge :=
  (p.dayAt d).charges.filter fun c => c.absence.id = id

/-- A period leaves the traces of a record alone: its charges, the errors that name it, and its flag. It
keeps its terms, and the dates that are compromised stay so. -/
structure Spares (id : AbsenceId) (p q : Period) : Prop where
  terms : q.terms = p.terms
  charges (d : Date) : q.chargesOf id d = p.chargesOf id d
  errors : q.findings.errorsOf id = p.findings.errorsOf id
  exceeded : q.findings.contains id .limitExceeded = p.findings.contains id .limitExceeded
  compromised {d : Date} : p.isCompromisedOn d = true → q.isCompromisedOn d = true

variable {id : AbsenceId} {p q r : Period}

theorem Spares.refl (id : AbsenceId) (p : Period) : Spares id p p :=
  ⟨rfl, fun _ => rfl, rfl, rfl, fun h => h⟩

theorem Spares.trans (first : Spares id p q) (later : Spares id q r) : Spares id p r where
  terms := later.terms.trans first.terms
  charges d := (later.charges d).trans (first.charges d)
  errors := later.errors.trans first.errors
  exceeded := later.exceeded.trans first.exceeded
  compromised h := later.compromised (first.compromised h)

theorem errorsOf_charge (p : Period) (c : Charge) (id : AbsenceId) :
    (p.charge c).findings.errorsOf id = p.findings.errorsOf id := by
  rw [charge_findings, Findings.errorsOf, critical_flag, Findings.errorsOf]

theorem chargesOf_charge (p : Period) (c : Charge) (id : AbsenceId) (d : Date) :
    (p.charge c).chargesOf id d =
      p.chargesOf id d ++ if d = c.absence.date ∧ c.absence.id = id then [c] else [] := by
  rw [chargesOf, dayAt_charge, chargesOf]
  by_cases same : d = c.absence.date
  · by_cases own : c.absence.id = id
    · simp [same, own]
    · simp [same, own]
  · simp [same]

theorem chargesOf_addCompletion (p : Period) (record : Absence) (amount : Amount) (id : AbsenceId)
    (d : Date) : (p.addCompletion record amount).chargesOf id d = p.chargesOf id d := by
  rw [chargesOf, charges_addCompletion, chargesOf]

theorem chargesOf_addReplacing (p : Period) (record : Absence) (id : AbsenceId) (d : Date) :
    (p.addReplacing record).chargesOf id d = p.chargesOf id d := by
  rw [chargesOf, charges_addReplacing, chargesOf]

theorem spares_addCompletion (id : AbsenceId) (p : Period) (record : Absence) (amount : Amount) :
    Spares id p (p.addCompletion record amount) :=
  ⟨rfl, chargesOf_addCompletion p record amount id, rfl, rfl, fun h => h⟩

theorem spares_addReplacing (id : AbsenceId) (p : Period) (record : Absence) :
    Spares id p (p.addReplacing record) :=
  ⟨rfl, chargesOf_addReplacing p record id, rfl, rfl, fun h => h⟩

theorem spares_compromise {error : CriticalError} (other : error.absence ≠ some id) (p : Period) :
    Spares id p (p.compromise error) where
  terms := rfl
  charges _ := rfl
  errors := Findings.errorsOf_addCritical_of_ne other p.findings
  exceeded := Findings.contains_addCritical p.findings error id .limitExceeded
  compromised h := isCompromisedOn_compromise.2 (.inl h)

theorem spares_charge {c : Charge} (other : c.absence.id ≠ id) (p : Period) :
    Spares id p (p.charge c) where
  terms := terms_charge p c
  charges d := by
    rw [chargesOf_charge, if_neg fun h => other h.2, List.append_nil]
  errors := errorsOf_charge p c id
  exceeded := by
    rw [charge_findings, Bool.eq_iff_iff, contains_flag]
    exact or_iff_left fun h => other h.1.symm
  compromised h := (isCompromisedOn_charge p c _).trans h

theorem spares_settle (id : AbsenceId) (tidy : p.Tidy) : Spares id p p.settle where
  terms := terms_settle p
  charges d := congrArg (List.filter _) (tidy.charges_settle d)
  errors := by rw [settle_findings]
  exceeded := by rw [settle_findings]
  compromised h := by
    rw [isCompromisedOn, settle_compromisedFrom]
    exact h

section Other

variable {record : Absence} (other : record.id ≠ id) (working : Option Amount)

include other

theorem spares_receive (p : Period) : Spares id p (p.receive working record) := by
  unfold receive
  split
  · exact spares_compromise (by simpa [amountError] using other) p
  · exact spares_charge other p

theorem spares_attach (p : Period) : Spares id p (Chain.attach working record p) :=
  Chain.attach_steps (Spares.refl id p) (spares_addCompletion id p record)
    (fun _ => spares_compromise (by simpa [amountError] using other) p)
    fun q spared => spared.trans (spares_addReplacing id q record)

end Other

end Period

namespace Chain

open Period

variable {id : AbsenceId}

theorem bring_spares {record : Absence} (other : record.id ≠ id) (working : Option Amount)
    (ps : List Period) : List.Forall₂ (Spares id) ps (bring working record ps) := by
  simp only [bring, List.forall₂_map_right_iff]
  refine (offer_steps (Spares.refl id) (fun p _ => spares_receive other working p) ps).imp
    fun p q offered => ?_
  exact offered.trans (spares_attach other working q)

/-- Records with other identifiers leave the traces of a record alone. -/
theorem bringAll_spares {records : List Absence} (others : ∀ b ∈ records, b.id ≠ id)
    (working : Date → Option Amount) (ps : List Period) :
    List.Forall₂ (Spares id) ps (bringAll working records ps) := by
  induction records generalizing ps with
  | nil => exact List.forall₂_same.2 fun p _ => Spares.refl id p
  | cons b rest ih =>
    refine forall₂_comp (R := Spares id) (S := Spares id) (fun p q r first later => first.trans later)
      (bring_spares (others b List.mem_cons_self) (working b.date) ps)
      (ih (fun c hc => others c (List.mem_cons_of_mem _ hc)) _)

end Chain

namespace Period

section Own

def dues (working : Option Amount) (record : Absence) (p : Period) : List Charge :=
  (record.weight? p.unit working).toList.map (p.assess record)

variable {working : Option Amount} {record : Absence} {p : Period}

/-- An attachment leaves the charges and the flag of its own record alone. -/
theorem chargesOf_attach (p : Period) (id : AbsenceId) (d : Date) :
    (Chain.attach working record p).chargesOf id d = p.chargesOf id d :=
  Chain.attach_steps (S := fun q => q.chargesOf id d = p.chargesOf id d) rfl
    (fun amount => chargesOf_addCompletion p record amount id d) (fun _ => rfl)
    fun q same => (chargesOf_addReplacing q record id d).trans same

theorem contains_attach (p : Period) (id : AbsenceId) (problem : Problem) :
    (Chain.attach working record p).findings.contains id problem = p.findings.contains id problem :=
  Chain.attach_steps
    (S := fun q => q.findings.contains id problem = p.findings.contains id problem) rfl (fun _ => rfl)
    (fun _ => Findings.contains_addCritical p.findings _ id problem) fun _ same => same

theorem isCompromisedOn_attach {d : Date} (h : p.isCompromisedOn d = true) :
    (Chain.attach working record p).isCompromisedOn d = true :=
  Chain.attach_steps (S := fun q => q.isCompromisedOn d = true) h (fun _ => h)
    (fun _ => isCompromisedOn_compromise.2 (.inl h)) fun _ same => same

/-- An attachment that cannot compute the completion raises the error of its record. -/
theorem findings_attach_of_fails (h : p.failsToComplete working record = true) :
    (Chain.attach working record p).findings = p.findings.addCritical (p.amountError record) := by
  obtain ⟨completes, unknown⟩ := Bool.and_eq_true_iff.1 h
  obtain ⟨completion, asks, unknown⟩ := (Option.any_eq_true _ _).1 unknown
  have failed : p.completeWith working record = p.compromise (p.amountError record) := by
    rw [completeWith, asks]
    simp only [Option.isNone_iff_eq_none.1 unknown]
  rw [Chain.attach, if_pos completes, failed]
  split
  · rfl
  · rfl

theorem errorsOf_attach (h : p.findings.errorsOf record.id = [] ∨
    p.findings.errorsOf record.id = [p.amountError record]) :
    (Chain.attach working record p).findings.errorsOf record.id =
      if p.failsToComplete working record then [p.amountError record]
      else p.findings.errorsOf record.id := by
  split
  · next fails =>
    rw [findings_attach_of_fails fails]
    exact Findings.errorsOf_addCritical rfl h
  · next sound =>
    exact Chain.attach_steps
      (S := fun q => q.findings.errorsOf record.id = p.findings.errorsOf record.id) rfl (fun _ => rfl)
      (fun fails => absurd fails sound) fun _ same => same

theorem chargesOf_receive (blank : ∀ d, p.chargesOf record.id d = []) (d : Date) :
    (p.receive working record).chargesOf record.id d =
      if d = record.date then p.dues working record else [] := by
  cases computed : record.weight? p.unit working with
  | none =>
    rw [receive_of_none computed, dues, computed]
    exact (blank d).trans (ite_self _).symm
  | some amount =>
    rw [receive_of_some computed, chargesOf_charge, blank, dues, computed, List.nil_append]
    simp [assess]

/-- A period flags a record it receives exactly when it turns it away. -/
theorem exceeded_receive (blank : p.findings.contains record.id .limitExceeded = false) :
    (p.receive working record).findings.contains record.id .limitExceeded = true ↔
      p.Rejects working record := by
  cases computed : record.weight? p.unit working with
  | none =>
    rw [receive_of_none computed, compromise, Findings.contains_addCritical, blank]
    exact iff_of_false Bool.false_ne_true (not_rejects_of_none computed)
  | some amount =>
    rw [receive_of_some computed, charge_findings, contains_flag, blank, rejects_iff computed]
    simp [assess]

theorem errorsOf_receive (blank : p.findings.errorsOf record.id = []) :
    (p.receive working record).findings.errorsOf record.id =
      if (record.weight? p.unit working).isNone then [p.amountError record] else [] := by
  cases computed : record.weight? p.unit working with
  | none =>
    rw [receive_of_none computed]
    exact Findings.errorsOf_addCritical rfl (.inl blank)
  | some amount =>
    rw [receive_of_some computed, errorsOf_charge, blank]
    rfl

theorem isCompromisedOn_receive (h : record.weight? p.unit working = none) :
    (p.receive working record).isCompromisedOn record.date = true := by
  rw [receive_of_none h]
  exact isCompromisedOn_compromise.2 (.inr (Date.le_refl _))

end Own

end Period

end Entitlement
