import Entitlement.Proofs.Absence.Order
import Entitlement.Proofs.Chain.Offers

/-!
Filling a chain in closed form. Whether a record clashes depends on the terms of the periods, which
never change, so the records either hold a first one that clashes and the filling fails with it, or
they are all brought into the periods one after the other. Records that concern no period may be
dropped.
-/

namespace Entitlement

namespace Chain

/-- Two periods ask for the completion, or for the replacing, of one record. -/
def clashes (periods : List Period) (record : Absence) : Bool :=
  decide (1 < periods.countP fun p => p.completes record) ||
    decide (1 < periods.countP fun p => p.replaces record)

theorem clashes_iff {periods : List Period} {record : Absence} :
    clashes periods record = true ↔ (1 < periods.countP fun p => p.completes record) ∨
      1 < periods.countP fun p => p.replaces record := by
  simp [clashes]

def bring (working : Option Amount) (record : Absence) (periods : List Period) : List Period :=
  (offer working record periods).1.map (attach working record)

def bringAll (working : Date → Option Amount) (records : List Absence) (periods : List Period) :
    List Period :=
  records.foldl (fun periods a => bring (working a.date) a periods) periods

def clashError (category : CategoryName) (record : Absence) : CriticalError :=
  ⟨category, record.date, some record.id, .twoPeriods record.date⟩

/-- What depends on the place of a period alone is the same on periods of the same places. -/
theorem map_congr_place {β : Type} {f : Period → β}
    (hf : ∀ p q : Period, p.place = q.place → f p = f q) {ps qs : List Period}
    (h : ps.map Period.place = qs.map Period.place) : ps.map f = qs.map f := by
  induction ps generalizing qs with
  | nil =>
      cases qs with
      | nil => rfl
      | cons q qs => simp at h
  | cons p ps ih =>
      cases qs with
      | nil => simp at h
      | cons q qs =>
          simp only [List.map_cons, List.cons.injEq] at h
          rw [List.map_cons, List.map_cons, ih h.2, hf p q h.1]

theorem place_of_terms {ps qs : List Period} (h : ps.map Period.terms = qs.map Period.terms) :
    ps.map Period.place = qs.map Period.place := by
  have := congrArg (List.map fun t => (t.1, t.2.1)) h
  rwa [List.map_map, List.map_map] at this

theorem countP_congr_place {f : Period → Bool}
    (hf : ∀ p q : Period, p.place = q.place → f p = f q) {ps qs : List Period}
    (h : ps.map Period.place = qs.map Period.place) : ps.countP f = qs.countP f := by
  have := congrArg (List.countP id) (map_congr_place hf h)
  simpa only [List.countP_map, Function.id_comp] using this

theorem clashes_congr {ps qs : List Period} (h : ps.map Period.place = qs.map Period.place)
    (record : Absence) : clashes ps record = clashes qs record := by
  unfold clashes
  rw [countP_congr_place (fun p q h => Period.completes_congr h record) h,
    countP_congr_place (fun p q h => Period.replaces_congr h record) h]

theorem any_congr_place {f : Period → Bool}
    (hf : ∀ p q : Period, p.place = q.place → f p = f q) {ps qs : List Period}
    (h : ps.map Period.place = qs.map Period.place) : ps.any f = qs.any f := by
  have := congrArg (List.any · id) (map_congr_place hf h)
  simpa only [List.any_map, Function.id_comp] using this

/-- What holds of no period holds of no period in the same places. -/
theorem none_congr_place {f : Period → Bool}
    (hf : ∀ p q : Period, p.place = q.place → f p = f q) {ps qs : List Period}
    (h : ps.map Period.place = qs.map Period.place) (none : ∀ p ∈ qs, f p = false) :
    ∀ p ∈ ps, f p = false := by
  have := any_congr_place hf h
  rw [List.any_eq_false.2 fun q hq => Bool.eq_false_iff.1 (none q hq)] at this
  exact fun p hp => Bool.eq_false_iff.2 (List.any_eq_false.1 this p hp)

theorem any_concerns_congr {ps qs : List Period}
    (h : ps.map Period.place = qs.map Period.place) (record : Absence) :
    (ps.any fun p => p.concerns record) = qs.any fun p => p.concerns record :=
  any_congr_place (fun _ _ h => Period.concerns_congr h record) h

/-- Some period is concerned when the offer is dealt with or the record attaches somewhere. -/
theorem any_concerns (working : Option Amount) (record : Absence) (periods : List Period) :
    (periods.any fun p => p.concerns record) = ((offer working record periods).2 ||
      (decide (0 < periods.countP fun p => p.completes record) ||
        decide (0 < periods.countP fun p => p.replaces record))) := by
  rw [offer_dealt, Bool.eq_iff_iff]
  simp only [Bool.or_eq_true, decide_eq_true_eq, List.countP_pos_iff, List.any_eq_true,
    Period.concerns]
  constructor
  · rintro ⟨p, hp, (takes | completes) | replaces⟩
    · exact .inl ⟨p, hp, takes⟩
    · exact .inr (.inl ⟨p, hp, completes⟩)
    · exact .inr (.inr ⟨p, hp, replaces⟩)
  · rintro (⟨p, hp, takes⟩ | ⟨p, hp, completes⟩ | ⟨p, hp, replaces⟩)
    · exact ⟨p, hp, .inl (.inl takes)⟩
    · exact ⟨p, hp, .inl (.inr completes)⟩
    · exact ⟨p, hp, .inr replaces⟩

theorem bring_terms (working : Option Amount) (record : Absence) (periods : List Period) :
    (bring working record periods).map Period.terms = periods.map Period.terms := by
  unfold bring
  rw [List.map_map, ← offer_terms working record periods]
  exact List.map_congr_left fun p _ => attach_terms working record p

theorem bringAll_terms (working : Date → Option Amount) (records : List Absence)
    (periods : List Period) :
    (bringAll working records periods).map Period.terms = periods.map Period.terms := by
  induction records generalizing periods with
  | nil => rfl
  | cons a rest ih =>
      rw [bringAll, List.foldl_cons]
      exact (ih _).trans (bring_terms _ _ _)

/-- A record enters a chain unless it clashes, and takes part in it if it concerns some period. -/
theorem enter_eq (working : WorkingTime) (chain : Chain) (record : Absence) :
    enter working chain record =
      if clashes chain.periods record then .error (clashError chain.category record)
      else .ok { chain with
        periods := bring (working chain.person record.date) record chain.periods
        participants := if chain.periods.any fun p => p.concerns record then
          chain.participants.insert record.id else chain.participants } := by
  have offered := place_of_terms
    (offer_terms (working chain.person record.date) record chain.periods)
  rw [any_concerns (working chain.person record.date)]
  simp only [enter, attachAll,
    countP_congr_place (fun p q h => Period.completes_congr h record) offered,
    countP_congr_place (fun p q h => Period.replaces_congr h record) offered]
  cases clash : clashes chain.periods record with
  | true =>
    rw [if_pos (clashes_iff.1 clash)]
    rfl
  | false =>
    rw [if_neg (mt clashes_iff.2 (by simp [clash]))]
    rfl

def joined (periods : List Period) (participants : OrderedSet AbsenceId) (records : List Absence) :
    OrderedSet AbsenceId :=
  records.foldl (fun participants a =>
    if periods.any fun p => p.concerns a then participants.insert a.id else participants) participants

theorem joined_congr {ps qs : List Period} (h : ps.map Period.place = qs.map Period.place)
    (participants : OrderedSet AbsenceId) (records : List Absence) :
    joined ps participants records = joined qs participants records := by
  simp only [joined, any_concerns_congr h]

theorem mem_joined {periods : List Period} {participants : OrderedSet AbsenceId}
    {records : List Absence} {id : AbsenceId} : id ∈ joined periods participants records ↔
      id ∈ participants ∨ ∃ a ∈ records, a.id = id ∧ ∃ p ∈ periods, p.concerns a := by
  induction records generalizing participants with
  | nil => simp [joined]
  | cons a rest ih =>
      rw [joined, List.foldl_cons]
      apply ih.trans
      rw [List.exists_mem_cons_iff]
      by_cases h : ∃ p ∈ periods, p.concerns a
      · rw [if_pos (List.any_eq_true.2 h), OrderedSet.mem_insert]
        constructor
        · rintro ((rfl | old) | later)
          · exact .inr (.inl ⟨rfl, h⟩)
          · exact .inl old
          · exact .inr (.inr later)
        · rintro (old | ⟨rfl, -⟩ | later)
          · exact .inl (.inr old)
          · exact .inl (.inl rfl)
          · exact .inr later
      · rw [if_neg (mt List.any_eq_true.1 h)]
        constructor
        · rintro (old | later)
          · exact .inl old
          · exact .inr (.inr later)
        · rintro (old | ⟨-, concerned⟩ | later)
          · exact .inl old
          · exact absurd concerned h
          · exact .inr later

/-- A list of records enters a chain unless one of them clashes; the first one that does is the
error. -/
theorem foldlM_enter (working : WorkingTime) (chain : Chain) (records : List Absence) :
    records.foldlM (enter working) chain =
      match records.find? (clashes chain.periods) with
      | some record => .error (clashError chain.category record)
      | none => .ok { chain with
          periods := bringAll (working chain.person) records chain.periods
          participants := joined chain.periods chain.participants records } := by
  induction records generalizing chain with
  | nil => rfl
  | cons a rest ih =>
      rw [List.foldlM_cons, enter_eq, List.find?_cons]
      cases clash : clashes chain.periods a with
      | true => rfl
      | false =>
        have brought := place_of_terms (bring_terms (working chain.person a.date) a chain.periods)
        apply (ih _).trans
        dsimp only
        have same : clashes (bring (working chain.person a.date) a chain.periods) =
            clashes chain.periods := funext fun b => clashes_congr brought b
        rw [joined_congr brought, same]
        rfl

def filled (chain : Chain) (working : Date → Option Amount) (periods : List Period)
    (records : List Absence) : Chain :=
  settle { chain with
    periods := bringAll working records periods
    participants := joined chain.periods chain.participants records }

theorem seedPeriod_place (rules : RuleTree) (working : WorkingTime) (pivot : Pivot)
    (records : List Absence) (p : Period) :
    (seedPeriod rules working pivot records p).place = p.place := by
  unfold seedPeriod
  split
  · rfl
  · exact (Period.place_of_terms (Period.compromiseAll_terms _ _).1).trans (Period.place_seed _ _)

private theorem days_compromiseAll (errors : List CriticalError) (p : Period) :
    (errors.foldl Period.compromise p).days = p.days := by
  induction errors generalizing p with
  | nil => rfl
  | cons error rest ih => exact ih (p.compromise error)

/-- Seeding puts nothing on the days. -/
theorem days_seedPeriod (rules : RuleTree) (working : WorkingTime) (pivot : Pivot)
    (records : List Absence) (p : Period) :
    (seedPeriod rules working pivot records p).days = p.days := by
  unfold seedPeriod
  split
  · rfl
  · apply (days_compromiseAll _ _).trans
    unfold Period.seed
    split <;> rfl

theorem seeded_places (rules : RuleTree) (working : WorkingTime) (pivot : Pivot)
    (records : List Absence) (periods : List Period) :
    (periods.map (seedPeriod rules working pivot records)).map Period.place =
      periods.map Period.place := by
  rw [List.map_map]
  exact List.map_congr_left fun p _ => seedPeriod_place rules working pivot records p

/-- Filling a chain in closed form: its first clashing record, or all its records brought into the
seeded periods. -/
theorem fill_eq (rules : RuleTree) (working : WorkingTime) (pivot : Pivot) {chain : Chain}
    (records : List Absence) {range : DateRange} (h : chain.range = some range) :
    fill rules working pivot chain records =
      match (chain.relevant range records).find? (clashes chain.periods) with
      | some record => .error (clashError chain.category record)
      | none => .ok (chain.filled (working chain.person)
          (chain.periods.map (seedPeriod rules working pivot records))
          (chain.relevant range records)) := by
  have seeded := seeded_places rules working pivot records chain.periods
  have same := funext fun a => clashes_congr seeded a
  simp only [fill, h, foldlM_enter, same, joined_congr seeded]
  cases (chain.relevant range records).find? (clashes chain.periods) with
  | none => rfl
  | some record => rfl

/-- A record that concerns no period is brought in vain. -/
theorem bring_of_not_concerned {working : Option Amount} {record : Absence} {periods : List Period}
    (h : ∀ p ∈ periods, p.concerns record = false) : bring working record periods = periods := by
  have parts (p : Period) (hp : p ∈ periods) := Period.concerns_eq_false.1 (h p hp)
  rw [bring, offer_of_not_takes fun p hp => (parts p hp).1]
  exact (List.map_congr_left fun p hp =>
    attach_of_not_concerned (parts p hp).2.1 (parts p hp).2.2).trans (List.map_id periods)

/-- Records that concern no period may be dropped before they are brought in. -/
theorem bringAll_filter (working : Date → Option Amount) {keep : Absence → Bool}
    {periods : List Period}
    (h : ∀ a, keep a = false → ∀ p ∈ periods, p.concerns a = false) (records : List Absence) :
    bringAll working records periods = bringAll working (records.filter keep) periods := by
  induction records generalizing periods with
  | nil => rfl
  | cons a rest ih =>
      by_cases kept : keep a = true
      · rw [List.filter_cons_of_pos kept]
        have brought := place_of_terms (bring_terms (working a.date) a periods)
        exact ih fun b hb =>
          none_congr_place (fun _ _ h => Period.concerns_congr h b) brought (h b hb)
      · rw [List.filter_cons_of_neg kept, ← ih h]
        exact congrArg (bringAll working rest)
          (bring_of_not_concerned (h a (Bool.eq_false_iff.2 kept)))

/-- Related periods stay related whatever records are brought into them. -/
theorem bringAll_related {R : Period → Period → Prop} (hR : Respected R)
    (working : Date → Option Amount) (records : List Absence) {ps qs : List Period}
    (h : List.Forall₂ R ps qs) :
    List.Forall₂ R (bringAll working records ps) (bringAll working records qs) := by
  induction records generalizing ps qs with
  | nil => exact h
  | cons a rest ih =>
      apply ih
      have offered := (offer_related hR (working a.date) a h).1
      simp only [bring, List.forall₂_map_left_iff, List.forall₂_map_right_iff]
      exact offered.imp fun p q hpq => attach_related hR (working a.date) a hpq

end Chain

end Entitlement
