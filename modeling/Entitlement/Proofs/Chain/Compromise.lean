import Entitlement.Proofs.Chain.Gains

/-!
From which date on a period is compromised. Errors reach a period from the replay of a carry-over and from the
records brought in, in any order of dates; at every step the period is compromised from the earliest date of
the errors that it holds, and no error is ever dropped.
-/

namespace Entitlement

/-- The earliest of the dates of errors, none if there are no errors. -/
def Earliest (errors : List CriticalError) : Option Date → Prop
  | none => errors = []
  | some d => (∃ e ∈ errors, e.date = d) ∧ ∀ e ∈ errors, d ≤ e.date

namespace Period

structure Marks (p q : Period) : Prop where
  place : q.place = p.place
  kept {error : CriticalError} : error ∈ p.findings.critical → error ∈ q.findings.critical
  earliest : Earliest p.findings.critical p.compromisedFrom →
    Earliest q.findings.critical q.compromisedFrom

theorem marks_refl (p : Period) : p.Marks p :=
  ⟨rfl, id, id⟩

theorem Marks.trans {p q r : Period} (first : p.Marks q) (later : q.Marks r) : p.Marks r :=
  ⟨later.place.trans first.place, later.kept ∘ first.kept, later.earliest ∘ first.earliest⟩

theorem marks_of_same {p q : Period} (place : q.place = p.place)
    (errors : q.findings.critical = p.findings.critical)
    (compromised : q.compromisedFrom = p.compromisedFrom) : p.Marks q := by
  refine ⟨place, fun h => errors ▸ h, fun h => ?_⟩
  rw [errors, compromised]
  exact h

theorem marks_compromise (p : Period) (error : CriticalError) : p.Marks (p.compromise error) where
  place := rfl
  kept h := Findings.mem_addCritical.2 (.inl h)
  earliest h := by
    have held {e : CriticalError} : e ∈ (p.compromise error).findings.critical ↔
        e ∈ p.findings.critical ∨ e = error := Findings.mem_addCritical
    cases start : p.compromisedFrom with
    | none =>
      have compromised : (p.compromise error).compromisedFrom = some error.date := by
        rw [compromise, start]
        rfl
      rw [start] at h
      rw [compromised]
      refine ⟨⟨error, held.2 (.inr rfl), rfl⟩, fun e he => ?_⟩
      rcases held.1 he with old | rfl
      · rw [show p.findings.critical = [] from h] at old
        exact absurd old List.not_mem_nil
      · exact Date.le_refl _
    | some d =>
      have compromised : (p.compromise error).compromisedFrom = some (min d error.date) := by
        rw [compromise, start]
        rfl
      rw [start] at h
      obtain ⟨⟨first, hfirst, dated⟩, least⟩ := h
      rw [compromised]
      refine ⟨?_, fun e he => ?_⟩
      · show ∃ e ∈ (p.compromise error).findings.critical,
          e.date = if d ≤ error.date then d else error.date
        split
        · exact ⟨first, held.2 (.inl hfirst), dated⟩
        · exact ⟨error, held.2 (.inr rfl), rfl⟩
      · rcases held.1 he with old | rfl
        · exact Date.le_trans (Date.min_le_left _ _) (least e old)
        · exact Date.min_le_right _ _

theorem compromisedFrom_charge (p : Period) (c : Charge) :
    (p.charge c).compromisedFrom = p.compromisedFrom := by
  unfold charge flag
  split <;> split <;> rfl

theorem marks_receive (working : Option Amount) (record : Absence) (p : Period) :
    p.Marks (p.receive working record) := by
  unfold receive
  split
  · exact marks_compromise p _
  · exact marks_of_same (place_of_terms (terms_charge p _)) (by rw [charge_findings, critical_flag])
      (compromisedFrom_charge p _)

theorem marks_compromiseAll (errors : List CriticalError) (p : Period) :
    p.Marks (errors.foldl compromise p) := by
  induction errors generalizing p with
  | nil => exact marks_refl p
  | cons error rest ih => exact (marks_compromise p error).trans (ih _)

end Period

namespace Chain

open Period

theorem marks_attach (working : Option Amount) (record : Absence) (p : Period) :
    p.Marks (attach working record p) :=
  attach_steps (marks_refl p) (fun _ => marks_of_same rfl rfl rfl) (fun _ => marks_compromise p _)
    fun _ marked => marked.trans (marks_of_same rfl rfl rfl)

/-- What holds of every offer and every attachment holds of bringing in a list of records. -/
theorem bringAll_steps {S : Period → Period → Prop} (stay : ∀ p, S p p)
    (trans : ∀ p q r, S p q → S q r → S p r)
    (receive : ∀ working record p, p.takes record = true → S p (p.receive working record))
    (attached : ∀ working record p, S p (attach working record p)) (working : Date → Option Amount)
    (records : List Absence) (ps : List Period) :
    List.Forall₂ S ps (bringAll working records ps) := by
  induction records generalizing ps with
  | nil => exact List.forall₂_same.2 fun p _ => stay p
  | cons a rest ih =>
    have offered := offer_steps stay (receive (working a.date) a) ps
    have brought : List.Forall₂ S ps (bring (working a.date) a ps) := by
      simp only [bring, List.forall₂_map_right_iff]
      exact offered.imp fun p q first => trans p q _ first (attached (working a.date) a q)
    exact forall₂_comp trans brought (ih _)

variable {rules : RuleTree} {working : WorkingTime} {pivot : Pivot} {laid chain : Chain}
  {records : List Absence}

theorem marks_seedPeriod (rules : RuleTree) (working : WorkingTime) (pivot : Pivot)
    (records : List Absence) (p : Period) : p.Marks (seedPeriod rules working pivot records p) := by
  unfold seedPeriod
  split
  · exact marks_refl p
  · have seeded (limit : Amount) : p.Marks (p.seed limit) := by
      unfold seed
      split <;> exact marks_of_same rfl rfl rfl
    exact (seeded _).trans (marks_compromiseAll _ _)

/-- A carry-over begins with the errors met in its replay. -/
theorem critical_of_replay {p : Period} {link : CarryOver} (carries : carryOver? rules p = some link)
    {error : CriticalError}
    (met : error ∈ (link.replay working pivot.person pivot.profile pivot.date.year records).2) :
    error ∈ (seedPeriod rules working pivot records p).findings.critical := by
  unfold seedPeriod
  rw [carries]
  dsimp only
  rw [findings_compromiseAll, Findings.mem_addCriticals]
  exact .inr met

theorem carryOver?_congr {p q : Period} (h : p.place = q.place) :
    carryOver? rules p = carryOver? rules q := by
  rw [carryOver?, carryOver?, (Prod.mk.inj h).1]

/-- Every period of a filled chain is compromised from the earliest date of its errors on, and the errors met
in the replay of a carry-over are among them. -/
theorem fill_compromises (hlaid : layOut rules pivot = .ok laid)
    (h : fill rules working pivot laid records = .ok chain) {s : Period} (hs : s ∈ chain.periods) :
    Earliest s.findings.critical s.compromisedFrom ∧
      ∀ link, carryOver? rules s = some link →
        ∀ e ∈ (link.replay working pivot.person pivot.profile pivot.date.year records).2,
          e ∈ s.findings.critical := by
  obtain ⟨-, -, -, empty⟩ := layOut_empty hlaid
  obtain ⟨-, rfl⟩ := fill_ok h
  obtain ⟨q, hq, rfl⟩ := List.mem_map.1 hs
  have brought := bringAll_steps marks_refl (fun _ _ _ => Marks.trans)
    (fun working record p _ => marks_receive working record p) marks_attach (working laid.person)
    (concerned laid.periods laid.person records)
    (laid.periods.map (seedPeriod rules working pivot records))
  obtain ⟨seeded, hseeded, marked⟩ := forall₂_mem_right brought hq
  obtain ⟨p, hp, rfl⟩ := List.mem_map.1 hseeded
  rw [settle_findings, settle_compromisedFrom]
  refine ⟨marked.earliest ((marks_seedPeriod rules working pivot records p).earliest ?_),
    fun link carries e met => marked.kept (critical_of_replay ?_ met)⟩
  · obtain ⟨category, natural, range, rfl⟩ := empty p hp
    rfl
  · have place : q.settle.place = p.place := (Period.place_of_terms (terms_settle q)).trans
      (marked.place.trans (seedPeriod_place rules working pivot records p))
    rw [← carryOver?_congr place, carries]

end Chain

end Entitlement
