import Entitlement.Proofs.Chain.Gathering
import Entitlement.Proofs.Chain.Lossless
import Entitlement.Proofs.Period.CutOff

/-!
Later records never change earlier verdicts. Records are brought in by date, so those behind a cut-off find
everything up to it decided; and the carry-overs, whose limits come from earlier years, either have their
limits from records before the cut-off or apply behind it altogether.
-/

namespace Entitlement

/-- A list in which nothing that passes a test stands behind something that fails it falls into the two
parts. -/
theorem filter_append_filter_not {α : Type} {l : List α} {test : α → Bool}
    (ordered : l.Pairwise fun a b => test b = true → test a = true) :
    l.filter test ++ l.filter (fun a => !test a) = l := by
  induction l with
  | nil => rfl
  | cons a rest ih =>
      obtain ⟨first, ordered⟩ := List.pairwise_cons.1 ordered
      cases here : test a with
      | true => simp [here, ih ordered]
      | false =>
        have behind : ∀ b ∈ rest, test b = false := fun b hb =>
          Bool.eq_false_iff.2 fun there => Bool.false_ne_true (here.symm.trans (first b hb there))
        have none : rest.filter test = [] := List.filter_eq_nil_iff.2 fun b hb => by simp [behind b hb]
        have all : rest.filter (fun b => !test b) = rest := List.filter_eq_self.2 fun b hb => by
          simp [behind b hb]
        simp [here, none, all]

namespace Absence

def upTo (d : Date) (records : List Absence) : List Absence :=
  records.filter fun a => decide (a.date ≤ d)

def behind (d : Date) (records : List Absence) : List Absence :=
  records.filter fun a => !decide (a.date ≤ d)

variable {d : Date} {records : List Absence} {a : Absence}

theorem mem_upTo : a ∈ upTo d records ↔ a ∈ records ∧ a.date ≤ d := by
  rw [upTo, List.mem_filter, decide_eq_true_eq]

theorem mem_behind : a ∈ behind d records ↔ a ∈ records ∧ d < a.date := by
  rw [behind, List.mem_filter, Bool.not_eq_true', decide_eq_false_iff_not]
  exact and_congr_right fun _ => ⟨Date.lt_of_not_le, fun late upTo => upTo late⟩

/-- In order, the records up to a date stand before those behind it. -/
theorem inOrder_upTo (d : Date) (records : List Absence) :
    inOrder records = inOrder (upTo d records) ++ inOrder (behind d records) := by
  rw [upTo, behind, ← inOrder_filter, ← inOrder_filter, filter_append_filter_not]
  refine (inOrder_sorted records).imp fun {a b} before upTo => ?_
  exact decide_eq_true (Date.le_trans (date_le_of_notAfter before) (of_decide_eq_true upTo))

end Absence

namespace Chain

open Period

variable {d : Date}

/-- A record dated behind the cut-off leaves what is up to it as it was. -/
theorem bring_sameUpTo {record : Absence} (behind : d < record.date) (working : Option Amount)
    (ps : List Period) : List.Forall₂ (SameUpTo d) ps (bring working record ps) := by
  have receive (p : Period) : SameUpTo d p (p.receive working record) := by
    unfold receive
    split
    · exact sameUpTo_compromise p behind
    · exact sameUpTo_charge p behind
  have attach (p : Period) : SameUpTo d p (attach working record p) :=
    attach_steps (SameUpTo.refl d p) (fun amount => sameUpTo_onDay p behind _)
      (fun _ => sameUpTo_compromise p behind) fun q same => same.trans (sameUpTo_onDay q behind _)
  simp only [bring, List.forall₂_map_right_iff]
  exact (offer_steps (SameUpTo.refl d) (fun p _ => receive p) ps).imp fun p q offered =>
    offered.trans (attach q)

/-- So do all of them together. -/
theorem bringAll_sameUpTo {records : List Absence} (behind : ∀ a ∈ records, d < a.date)
    (working : Date → Option Amount) (ps : List Period) :
    List.Forall₂ (SameUpTo d) ps (bringAll working records ps) := by
  induction records generalizing ps with
  | nil => exact List.forall₂_same.2 fun p _ => SameUpTo.refl d p
  | cons a rest ih =>
      obtain ⟨first, behind⟩ := List.forall_mem_cons.1 behind
      exact forall₂_comp (fun _ _ _ first later => first.trans later)
        (bring_sameUpTo first (working a.date) ps) (ih behind _)

structure Ahead (d : Date) (p q : Period) : Prop where
  place : p.place = q.place
  initialization : p.initialization = q.initialization
  behind {e : Date} : e ∈ p.range → d < e
  blank : p.days = ∅ ∧ q.days = ∅
  problems (id : AbsenceId) (problem : Problem) :
    p.findings.contains id problem = q.findings.contains id problem

/-- Two periods that are the same, unless both apply behind the cut-off. -/
def SameOrAhead (d : Date) (p q : Period) : Prop :=
  p = q ∨ Ahead d p q

theorem SameOrAhead.sameUpTo {p q : Period} (h : SameOrAhead d p q) : SameUpTo d p q := by
  rcases h with rfl | ahead
  · exact SameUpTo.refl d p
  · obtain ⟨blank, blank'⟩ := ahead.blank
    refine ⟨ahead.place, ahead.initialization, fun _ => by rw [day?, day?, blank, blank'], fun _ held => ?_⟩
    rw [day?, blank] at held
    cases held

/-- What applies behind the cut-off is not concerned by records up to it. -/
theorem Ahead.not_concerned {p q : Period} (h : Ahead d p q) {record : Absence} (upTo : record.date ≤ d) :
    p.concerns record = false ∧ q.concerns record = false := by
  have none : p.concerns record = false := by
    refine Bool.eq_false_iff.2 fun concerned => ?_
    rw [concerns_eq, Bool.and_eq_true] at concerned
    exact upTo (h.behind (DateRange.contains_iff.1 concerned.1))
  exact ⟨none, (concerns_congr h.place record).symm.trans none⟩

theorem offer_sameOrAhead {record : Absence} (upTo : record.date ≤ d) (working : Option Amount)
    {ps qs : List Period} (h : List.Forall₂ (SameOrAhead d) ps qs) :
    List.Forall₂ (SameOrAhead d) (offer working record ps).1 (offer working record qs).1 ∧
      (offer working record ps).2 = (offer working record qs).2 := by
  induction h with
  | nil => exact ⟨.nil, rfl⟩
  | @cons p q ps qs here rest ih =>
    obtain ⟨related, answers⟩ := ih
    rcases here with rfl | ahead
    · have same : SameOrAhead d p p := .inl rfl
      simp only [offer]
      split
      · split
        · exact ⟨.cons (.inl rfl) rest, rfl⟩
        · split
          · exact ⟨.cons (.inl rfl) rest, rfl⟩
          · cases hp : offer working record ps with
            | mk ps' taken =>
              cases hq : offer working record qs with
              | mk qs' taken' =>
                rw [hp, hq] at related answers
                subst answers
                cases taken with
                | true => exact ⟨.cons same related, rfl⟩
                | false => exact ⟨.cons (.inl rfl) related, rfl⟩
      · exact ⟨.cons same related, answers⟩
    · obtain ⟨spared, spared'⟩ := ahead.not_concerned upTo
      simp only [offer, (concerns_eq_false.1 spared).1, (concerns_eq_false.1 spared').1,
        Bool.false_eq_true, if_false]
      exact ⟨.cons (.inr ahead) related, answers⟩

/-- A record up to the cut-off is dealt with alike. -/
theorem bring_sameOrAhead {record : Absence} (upTo : record.date ≤ d) (working : Option Amount)
    {ps qs : List Period} (h : List.Forall₂ (SameOrAhead d) ps qs) :
    List.Forall₂ (SameOrAhead d) (bring working record ps) (bring working record qs) := by
  simp only [bring, List.forall₂_map_left_iff, List.forall₂_map_right_iff]
  refine (offer_sameOrAhead upTo working h).1.imp fun p q related => ?_
  rcases related with rfl | ahead
  · exact .inl rfl
  · obtain ⟨spared, spared'⟩ := ahead.not_concerned upTo
    obtain ⟨-, completes, replaces⟩ := concerns_eq_false.1 spared
    obtain ⟨-, completes', replaces'⟩ := concerns_eq_false.1 spared'
    rw [attach_of_not_concerned completes replaces, attach_of_not_concerned completes' replaces']
    exact .inr ahead

/-- And so are all of them together. -/
theorem bringAll_sameOrAhead {records : List Absence} (upTo : ∀ a ∈ records, a.date ≤ d)
    (working : Date → Option Amount) {ps qs : List Period} (h : List.Forall₂ (SameOrAhead d) ps qs) :
    List.Forall₂ (SameOrAhead d) (bringAll working records ps) (bringAll working records qs) := by
  induction records generalizing ps qs with
  | nil => exact h
  | cons a rest ih =>
      obtain ⟨first, upTo⟩ := List.forall_mem_cons.1 upTo
      exact ih upTo (bring_sameOrAhead first (working a.date) h)

section Built

variable {rules : RuleTree} {working : WorkingTime} {pivot : Pivot} {laid : Chain}
  {records : List Absence}

theorem initialization_seedPeriod (p : Period) :
    (seedPeriod rules working pivot records p).initialization = p.initialization := by
  unfold seedPeriod
  split
  · rfl
  · apply (initialization_of_terms (compromiseAll_terms _ _).1).trans
    unfold seed
    split
    · rfl
    · rfl

/-- A carry-over gets the same limit from the records up to a cut-off, unless it applies behind it. -/
theorem seedPeriod_sameOrAhead (hlaid : layOut rules pivot = .ok laid) {p : Period}
    (hp : p ∈ laid.periods) (d : Date) :
    SameOrAhead d (seedPeriod rules working pivot records p)
      (seedPeriod rules working pivot (Absence.upTo d records) p) := by
  by_cases reaches : pivot.date.year ≤ d.year
  · refine .inl (seedPeriod_congr fun link _ => congrArg Absence.inOrder ?_)
    rw [Absence.upTo, List.filter_filter]
    refine List.filter_congr fun a _ => ?_
    rw [Bool.eq_iff_iff]
    simp only [Bool.and_eq_true, decide_eq_true_eq]
    refine ⟨fun history => ⟨history, ?_⟩, fun kept => kept.1⟩
    exact Date.le_of_lt (Date.lt_of_year_lt (Int.lt_of_lt_of_le history.1.2 reaches))
  · cases carries : carryOver? rules p with
    | none => exact .inl (seedPeriod_congr fun link found => by rw [carries] at found; cases found)
    | some link =>
      have places := seedPeriod_place rules working pivot
      have days := days_seedPeriod rules working pivot
      have blank := (layOut_fresh hlaid).2.2 p hp
      refine .inr ⟨(places _ p).trans (places _ p).symm, ?_, fun {e} he => ?_,
        ⟨(days _ p).trans blank, (days _ p).trans blank⟩, fun id problem => ?_⟩
      · rw [initialization_seedPeriod, initialization_seedPeriod]
      · rw [(Prod.mk.inj (places _ p)).2] at he
        have year := year_of_carryOver hlaid hp carries he
        exact Date.lt_of_year_lt (year ▸ Int.not_le.1 reaches)
      · rw [contains_seedPeriod, contains_seedPeriod]

/-- The records of concern up to a cut-off come first, those behind it after them. -/
theorem concerned_upTo (periods : List Period) (person : PersonId) (d : Date) (records : List Absence) :
    concerned periods person records = concerned periods person (Absence.upTo d records) ++
      concerned periods person (Absence.behind d records) := by
  refine (Absence.inOrder_upTo d _).trans ?_
  rw [concerned, concerned, Absence.upTo, Absence.upTo, Absence.behind, Absence.behind, List.filter_filter,
    List.filter_filter, List.filter_filter, List.filter_filter]
  simp only [Bool.and_comm]

def broughtIn (rules : RuleTree) (working : WorkingTime) (pivot : Pivot) (laid : Chain)
    (records : List Absence) : List Period :=
  bringAll (working laid.person) (concerned laid.periods laid.person records)
    (laid.periods.map (seedPeriod rules working pivot records))

theorem periods_fill {chain : Chain} (h : fill rules working pivot laid records = .ok chain) :
    chain.periods = (broughtIn rules working pivot laid records).map (·.settle) := by
  obtain ⟨-, rfl⟩ := fill_ok h
  rfl

/-- A record is flagged in a filled chain exactly when it is in one of the periods. -/
theorem contains_fill (hlaid : layOut rules pivot = .ok laid) {chain : Chain}
    (h : fill rules working pivot laid records = .ok chain) (id : AbsenceId) (problem : Problem) :
    chain.findings.contains id problem =
      (broughtIn rules working pivot laid records).any fun p => p.findings.contains id problem := by
  rw [Bool.eq_iff_iff, (gathered_fill hlaid h).problems, periods_fill h, List.any_eq_true]
  simp only [List.mem_map, exists_exists_and_eq_and, settle_findings]

/-- Where a chain is filled, it is filled from the records up to a cut-off too: none of them clashes. -/
theorem fill_upTo {chain : Chain} (h : fill rules working pivot laid records = .ok chain) (d : Date) :
    ∃ early, fill rules working pivot laid (Absence.upTo d records) = .ok early := by
  refine ⟨_, fill_of_unclashed rules working pivot fun a ha => (fill_ok h).1 a ?_⟩
  rw [concerned_upTo laid.periods laid.person d records]
  exact List.mem_append_left _ ha

/-- All records bring in what those up to a cut-off do, apart from periods ahead of it, and then those behind
it are brought in. -/
theorem broughtIn_upTo (working : WorkingTime) (records : List Absence)
    (hlaid : layOut rules pivot = .ok laid) (d : Date) :
    ∃ periods, List.Forall₂ (SameOrAhead d) periods
        (broughtIn rules working pivot laid (Absence.upTo d records)) ∧
      broughtIn rules working pivot laid records = bringAll (working laid.person)
        (concerned laid.periods laid.person (Absence.behind d records)) periods := by
  have seeded : List.Forall₂ (SameOrAhead d) (laid.periods.map (seedPeriod rules working pivot records))
      (laid.periods.map (seedPeriod rules working pivot (Absence.upTo d records))) := by
    rw [List.forall₂_map_left_iff, List.forall₂_map_right_iff]
    exact List.forall₂_same.2 fun p hp => seedPeriod_sameOrAhead hlaid hp d
  have dated : ∀ a ∈ concerned laid.periods laid.person (Absence.upTo d records), a.date ≤ d :=
    fun a ha => (Absence.mem_upTo.1 (mem_concerned.1 ha).1).2
  refine ⟨_, bringAll_sameOrAhead dated (working laid.person) seeded, ?_⟩
  rw [broughtIn, concerned_upTo laid.periods laid.person d records, bringAll, List.foldl_append]
  rfl

/-- Up to a cut-off a chain is the one built from the records up to it: its periods are the same up to the
cut-off, and of the records up to it the same are flagged. -/
theorem build_upTo (d : Date) (distinct : (records.map (·.id)).Nodup) {chain : Chain}
    (h : build rules working pivot records = .ok chain) :
    ∃ early, build rules working pivot (Absence.upTo d records) = .ok early ∧
      List.Forall₂ (SameUpTo d) chain.periods early.periods ∧
      ∀ a ∈ records, a.date ≤ d → chain.findings.contains a.id .limitExceeded =
        early.findings.contains a.id .limitExceeded := by
  obtain ⟨laid, hlaid, h⟩ := bind_ok h
  obtain ⟨early, h'⟩ := fill_upTo h d
  have built : build rules working pivot (Absence.upTo d records) = .ok early := by
    rw [build, hlaid]
    exact h'
  obtain ⟨periods, first, all⟩ := broughtIn_upTo working records hlaid d
  have late : ∀ a ∈ concerned laid.periods laid.person (Absence.behind d records), a ∈ records ∧ d < a.date :=
    fun a ha => Absence.mem_behind.1 (mem_concerned.1 ha).1
  refine ⟨early, built, ?_, fun a ha dated => ?_⟩
  · have later := bringAll_sameUpTo (fun a ha => (late a ha).2) (working laid.person) periods
    have brought := forall₂_comp (R := fun p q => SameUpTo d q p) (S := SameOrAhead d) (T := SameUpTo d)
      (fun _ _ _ later first => later.symm.trans first.sameUpTo) later.flip first
    rw [periods_fill h, periods_fill h', all, List.forall₂_map_left_iff, List.forall₂_map_right_iff]
    exact brought.imp fun _ _ same => same.settle
  · have others : ∀ b ∈ concerned laid.periods laid.person (Absence.behind d records), b.id ≠ a.id := by
      intro b hb same
      obtain ⟨mem, behind⟩ := late b hb
      rw [List.inj_on_of_nodup_map distinct mem ha same] at behind
      exact dated behind
    have spared := forall₂_map_eq.1 ((bringAll_spares others (working laid.person) periods).imp
      fun _ _ spares => spares.exceeded.symm)
    have alike (p q : Period) (related : SameOrAhead d p q) :
        p.findings.contains a.id .limitExceeded = q.findings.contains a.id .limitExceeded := by
      rcases related with rfl | ahead
      · rfl
      · exact ahead.problems a.id .limitExceeded
    have flagged := congrArg (List.any · id) (spared.symm.trans (forall₂_map_eq.1 (first.imp alike)))
    rw [contains_fill hlaid h, contains_fill hlaid h', all]
    simpa only [List.any_map, Function.comp_def, id] using flagged

end Built

/-- On the second of the sample's days the third has not exceeded a limit yet, and the hour has not compromised
anything; the two days before are charged as they stay. -/
theorem first_days_lasting : ∃ chain early,
    build sampleShort .unknown sampleFebruary sampleDays = .ok chain ∧
      build sampleShort .unknown sampleFebruary (Absence.upTo (.sample 2024 2 2) sampleDays) = .ok early ∧
      List.Forall₂ (SameUpTo (.sample 2024 2 2)) chain.periods early.periods ∧
      early.findings.contains 2 .limitExceeded = false ∧
      chain.findings.contains 3 .limitExceeded = true ∧ early.findings.contains 3 .limitExceeded = false ∧
      chain.isCompromised = true ∧ early.isCompromised = false := by
  have run : ((build sampleShort .unknown sampleFebruary sampleDays).toOption.any fun chain =>
      (build sampleShort .unknown sampleFebruary
        (Absence.upTo (.sample 2024 2 2) sampleDays)).toOption.any fun early => decide (
          chain.findings.contains 2 .limitExceeded = false ∧
          chain.findings.contains 3 .limitExceeded = true ∧
          early.findings.contains 3 .limitExceeded = false ∧
          chain.isCompromised = true ∧ early.isCompromised = false)) = true := by cbv
  obtain ⟨chain, h, run⟩ := (Option.any_eq_true _ _).1 run
  obtain ⟨early, h', facts⟩ := (Option.any_eq_true _ _).1 run
  obtain ⟨second, facts⟩ := of_decide_eq_true facts
  obtain ⟨early', built, same, flags⟩ := build_upTo (.sample 2024 2 2) (by decide) (ok_of_toOption h)
  obtain rfl := Except.ok.inj (built.symm.trans (ok_of_toOption h'))
  have kept := flags ⟨⟨1, "HOL", .sample 2024 2 2, .allDay, none, none⟩, 2⟩ (by decide) (by decide)
  exact ⟨chain, early', ok_of_toOption h, built, same, kept.symm.trans second, facts⟩

end Chain

end Entitlement
