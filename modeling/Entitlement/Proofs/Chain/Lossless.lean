import Entitlement.Proofs.Chain.Seeds

/-!
Charging loses no record. Filling a chain puts every record that some period takes into the first fit of the
periods as the records before it left them, and nowhere else: it is charged there once, or compromises the
period if its amount cannot be computed. It is flagged exactly when every period that takes it turned it away.
-/

namespace Entitlement

open Period

def Period.charges (p : Period) : List Charge :=
  p.days.values.flatMap (·.charges)

/-- A record that is charged on one date only is charged in all as often as on that date. -/
theorem Period.filter_charges {p : Period} {id : AbsenceId} {date : Date}
    (h : ∀ d, d ≠ date → p.chargesOf id d = []) :
    (p.charges.filter fun c => c.absence.id = id) = p.chargesOf id date := by
  have elsewhere {d : Date} {day : PeriodDay} (mem : (d, day) ∈ p.days.toList) (other : d ≠ date) :
      (day.charges.filter fun c => c.absence.id = id) = [] := by
    have none := h d other
    rwa [chargesOf, dayAt_of_day? (day?_eq_some.2 mem)] at none
  rw [charges, List.filter_flatMap, OrderedMap.values, List.flatMap_map]
  cases found : p.day? date with
  | none =>
    rw [chargesOf, dayAt_of_none found]
    refine List.flatMap_eq_nil_iff.2 fun e mem => elsewhere mem ?_
    rintro same
    rw [day?_eq_none] at found
    exact found (same ▸ List.mem_map_of_mem mem)
  | some day =>
    obtain ⟨before, after, split⟩ := List.append_of_mem (day?_eq_some.1 found)
    have sorted := p.days.ascending
    rw [split, List.pairwise_append, List.pairwise_cons] at sorted
    obtain ⟨-, ⟨later, -⟩, earlier⟩ := sorted
    have front : (before.flatMap fun e => e.2.charges.filter fun c => c.absence.id = id) = [] :=
      List.flatMap_eq_nil_iff.2 fun e mem => elsewhere (split ▸ List.mem_append_left _ mem)
        (Ordered.ne_of_before (earlier e mem _ List.mem_cons_self))
    have back : (after.flatMap fun e => e.2.charges.filter fun c => c.absence.id = id) = [] :=
      List.flatMap_eq_nil_iff.2 fun e mem =>
        elsewhere (split ▸ List.mem_append_right _ (List.mem_cons_of_mem _ mem))
          (Ordered.ne_of_before (later e mem)).symm
    rw [split, List.flatMap_append, List.flatMap_cons, front, back, List.nil_append, List.append_nil,
      chargesOf, dayAt_of_day? found]

def Period.gained (p q : Period) : List CriticalError :=
  q.findings.critical.filter fun error => error ∉ p.findings.critical

theorem Period.gained_of_same {p q : Period} (h : q.findings.critical = p.findings.critical) :
    p.gained q = [] := by
  rw [gained, h]
  exact List.filter_eq_nil_iff.2 fun error held => by simpa using held

namespace Chain

def charges (chain : Chain) : List Charge :=
  chain.periods.flatMap Period.charges

theorem flatMap_of_sole {α β : Type} {f : α → List β} {l : List α} {i : Nat} {a : α}
    (h : l[i]? = some a) (others : ∀ j b, l[j]? = some b → j ≠ i → f b = []) : l.flatMap f = f a := by
  induction l generalizing i with
  | nil => cases h
  | cons b l ih =>
    rw [List.flatMap_cons]
    cases i with
    | zero =>
      cases h
      have rest : l.flatMap f = [] := List.flatMap_eq_nil_iff.2 fun c hc => by
        obtain ⟨j, found⟩ := List.mem_iff_getElem?.1 hc
        exact others (j + 1) c found (Nat.succ_ne_zero j)
      rw [rest, List.append_nil]
    | succ i =>
      rw [others 0 b rfl (Nat.succ_ne_zero i).symm, List.nil_append]
      exact ih h fun j c found other => others (j + 1) c found (mt Nat.succ.inj other)

def raised (before after : List Period) : List CriticalError :=
  (List.zipWith Period.gained before after).flatten

/-- Where one period has changed, the errors raised are those it has gained. -/
theorem raised_set {periods : List Period} {i : Nat} {p q : Period} (h : periods[i]? = some p) :
    raised periods (periods.set i q) = p.gained q := by
  have unchanged (l : List Period) : raised l l = [] := by
    rw [raised, List.zipWith_self, List.flatten_eq_nil_iff]
    intro errors mem
    obtain ⟨p, -, rfl⟩ := List.mem_map.1 mem
    exact gained_of_same rfl
  induction periods generalizing i with
  | nil => cases h
  | cons r rest ih =>
    cases i with
    | zero =>
      cases h
      rw [List.set_cons_zero, raised, List.zipWith_cons_cons, List.flatten_cons]
      exact (congrArg (_ ++ ·) (unchanged rest)).trans (List.append_nil _)
    | succ i =>
      rw [List.set_cons_succ, raised, List.zipWith_cons_cons, List.flatten_cons, gained_of_same rfl,
        List.nil_append]
      exact ih h

/-- The chain as a record finds it: the carry-overs have their limits, and the relevant records that come
before in the order of dates and identifiers have entered. -/
def FoundBy (rules : RuleTree) (working : WorkingTime) (pivot : Pivot) (laid : Chain)
    (records : List Absence) (record : Absence) (found : Chain) : Prop :=
  ∃ range earlier later, laid.range = some range ∧
    laid.relevant range records = earlier ++ record :: later ∧
    earlier.foldlM (enter working)
      { laid with periods := laid.periods.map (seedPeriod rules working pivot records) } = .ok found

/-- What has become of a record in a chain: of the periods it was offered to, the first fit received it,
and `s` is this period in the end. -/
structure Charged (working : Option Amount) (record : Absence) (periods : List Period) (chain : Chain)
    (i : Nat) (p s : Period) : Prop where
  fit : FirstFit working record periods i p
  offered : offer working record periods = (periods.set i (p.receive working record), true)
  there : chain.periods[i]? = some s
  terms : s.terms = p.terms
  /-- If its amount can be computed, the record is charged once, on its date, and no error is raised for
  its taking. -/
  charged {amount : Amount} : record.weight? p.unit working = some amount →
    (chain.charges.filter fun c => c.absence.id = record.id) = [p.assess record amount] ∧
      p.assess record amount ∈ (s.dayAt record.date).charges ∧
      raised periods (offer working record periods).1 = []
  /-- Otherwise it is charged nowhere, one error is raised for its taking, which the chain holds once, and
  the period is compromised from its date on. -/
  compromised : record.weight? p.unit working = none →
    (chain.charges.filter fun c => c.absence.id = record.id) = [] ∧
      raised periods (offer working record periods).1 = [s.amountError record] ∧
      chain.findings.critical.count (s.amountError record) = 1 ∧
      s.isCompromisedOn record.date = true
  /-- Where a period takes the record, it holds no error that names it but that of its taking, or of a
  completion that cannot be computed. -/
  errors {j : Nat} {t : Period} : chain.periods[j]? = some t → t.takes record = true →
    t.findings.errorsOf record.id =
      if j = i ∧ record.weight? p.unit working = none ∨ t.failsToComplete working record = true then
        [t.amountError record] else []
  flagged : chain.findings.contains record.id .limitExceeded = true ↔
    ∀ q ∈ periods, q.takes record = true → q.Rejects working record

/-- Charging loses and doubles nothing: every record of the person that a period takes is charged to the
first fit, or compromises it, and nothing else is charged. -/
structure Lossless (rules : RuleTree) (working : WorkingTime) (pivot : Pivot) (laid : Chain)
    (records : List Absence) (chain : Chain) : Prop where
  placed {record : Absence} : record ∈ records → record.person = laid.person →
    (∃ p ∈ laid.periods, p.takes record = true) →
    ∃ found i p s, FoundBy rules working pivot laid records record found ∧
      Charged (working laid.person record.date) record found.periods chain i p s
  others {s : Period} {d : Date} {day : PeriodDay} {c : Charge} : s ∈ chain.periods →
    s.day? d = some day → c ∈ day.charges → c.absence ∈ records ∧ c.absence.person = laid.person ∧
      c.absence.date = d ∧ s.takes c.absence = true

theorem foldlM_enter_ok {working : WorkingTime} {chain full : Chain} {records : List Absence}
    (h : records.foldlM (enter working) chain = .ok full) :
    full.periods = bringAll (working chain.person) records chain.periods := by
  rw [foldlM_enter] at h
  split at h
  · cases h
  · cases h
    rfl

variable {rules : RuleTree} {working : WorkingTime} {pivot : Pivot} {laid chain : Chain}
  {records : List Absence} {record : Absence}

/-- The relevant records enter a chain one after the other, and then its days are settled. -/
theorem fill_run (h : fill rules working pivot laid records = .ok chain) {range : DateRange}
    (hrange : laid.range = some range) : ∃ full, (laid.relevant range records).foldlM (enter working)
      { laid with periods := laid.periods.map (seedPeriod rules working pivot records) } = .ok full ∧
      chain = full.settle := by
  simp only [fill, hrange] at h
  obtain ⟨full, run, settled⟩ := bind_ok h
  exact ⟨full, run, (Except.ok.inj settled).symm⟩

/-- A record of the person that a period takes is among the relevant ones. -/
theorem relevant_of_takes (hrecord : record ∈ records) (person : record.person = laid.person)
    (takes : ∃ p ∈ laid.periods, p.takes record = true) :
    ∃ range, laid.range = some range ∧ record ∈ laid.relevant range records := by
  obtain ⟨p, hp, takes⟩ := takes
  cases hrange : laid.range with
  | none =>
    rw [range_eq_none.1 hrange] at hp
    exact absurd hp List.not_mem_nil
  | some range =>
    have concerned : record ∈ concerned laid.periods laid.person records :=
      mem_concerned.2 ⟨hrecord, person, p, hp, by simp [concerns, takes]⟩
    rw [← relevant_filter hrange] at concerned
    exact ⟨range, rfl, (List.mem_filter.1 concerned).1⟩

/-- The other relevant records have other identifiers. -/
theorem relevant_others (distinct : (records.map (·.id)).Nodup) {range : DateRange}
    {earlier later : List Absence}
    (h : laid.relevant range records = earlier ++ record :: later) :
    (∀ b ∈ earlier, b.id ≠ record.id) ∧ ∀ b ∈ later, b.id ≠ record.id := by
  have nodup : ((laid.relevant range records).map (·.id)).Nodup :=
    ((Absence.inOrder_perm _).map _).nodup_iff.2 (distinct.sublist (List.filter_sublist.map _))
  rw [h, List.map_append, List.map_cons, List.nodup_append] at nodup
  obtain ⟨-, rest, apart⟩ := nodup
  refine ⟨fun b hb same => ?_, fun b hb same => ?_⟩
  · exact apart _ (List.mem_map_of_mem hb) _ List.mem_cons_self same
  · exact (List.nodup_cons.1 rest).1 (same ▸ List.mem_map_of_mem hb)

/-- The periods of a chain are brought in tidy. -/
theorem tidy_bringAll (hlaid : layOut rules pivot = .ok laid) (working' : Date → Option Amount)
    (brought : List Absence) {q : Period}
    (hq : q ∈ bringAll working' brought (laid.periods.map (seedPeriod rules working pivot records))) :
    q.Tidy := by
  obtain ⟨seeded, hseeded, brought⟩ := forall₂_mem_right (bringAll_brought _ _ _) hq
  obtain ⟨p, hp, rfl⟩ := List.mem_map.1 hseeded
  apply brought.tidy
  apply tidy_of_empty
  rw [days_seedPeriod]
  exact (layOut_fresh hlaid).2.2 p hp

/-- The periods that a record was offered to, and what has become of them when the chain is filled: the
record was attached to them, and others have left its traces alone. -/
theorem exists_found (hlaid : layOut rules pivot = .ok laid) (distinct : (records.map (·.id)).Nodup)
    (h : fill rules working pivot laid records = .ok chain) (hrecord : record ∈ records)
    (person : record.person = laid.person) (takes : ∃ p ∈ laid.periods, p.takes record = true) :
    ∃ found, FoundBy rules working pivot laid records record found ∧
      (∃ q ∈ found.periods, q.takes record = true) ∧ (∀ q ∈ found.periods, Untouched record q) ∧
      List.Forall₂
        (fun q t => Spares record.id (attach (working laid.person record.date) record q) t)
        (offer (working laid.person record.date) record found.periods).1 chain.periods := by
  obtain ⟨range, hrange, relevant⟩ := relevant_of_takes hrecord person takes
  obtain ⟨earlier, later, split⟩ := List.append_of_mem relevant
  obtain ⟨before, after⟩ := relevant_others distinct split
  obtain ⟨full, run, rfl⟩ := fill_run h hrange
  have whole := foldlM_enter_ok run
  rw [split, List.foldlM_append] at run
  obtain ⟨found, entered, -⟩ := bind_ok run
  have periods := foldlM_enter_ok entered
  dsimp only at periods whole
  have spared := bringAll_spares before (working laid.person)
    (laid.periods.map (seedPeriod rules working pivot records))
  rw [← periods] at spared
  refine ⟨found, ⟨range, earlier, later, hrange, split, entered⟩, ?_, fun q hq => ?_, ?_⟩
  · have places : found.periods.map Period.place = laid.periods.map Period.place := by
      rw [← seeded_places rules working pivot records laid.periods, periods]
      exact place_of_terms (bringAll_terms _ _ _)
    have any := any_congr_place (fun _ _ h => takes_congr h record) places
    rw [List.any_eq_true.2 takes] at any
    exact List.any_eq_true.1 any
  · obtain ⟨seeded, hseeded, spares⟩ := forall₂_mem_right spared hq
    obtain ⟨p, hp, rfl⟩ := List.mem_map.1 hseeded
    exact (untouched_seedPeriod hlaid distinct hp hrecord).of_spares spares
  · have tidy : ∀ q ∈ full.periods, q.Tidy := by
      rw [whole]
      exact fun q hq => tidy_bringAll hlaid _ _ hq
    have settled : List.Forall₂ (Spares record.id) full.periods full.settle.periods :=
      List.forall₂_map_right_iff.2 (List.forall₂_same.2 fun q hq => spares_settle record.id (tidy q hq))
    have rest := bringAll_spares after (working laid.person)
      (bring (working laid.person record.date) record found.periods)
    have last : full.periods = bringAll (working laid.person) later
        (bring (working laid.person record.date) record found.periods) := by
      rw [whole, split, periods]
      simp only [bringAll, List.foldl_append, List.foldl_cons]
    rw [← last, bring, List.forall₂_map_left_iff] at rest
    exact forall₂_comp (S := Spares record.id) (fun _ _ _ first later => first.trans later) rest settled

structure Passed (working : Option Amount) (record : Absence) (t : Period) : Prop where
  charges (d : Date) : t.chargesOf record.id d = []
  exceeded : t.findings.contains record.id .limitExceeded = false
  errors : t.takes record = true → t.findings.errorsOf record.id =
    if t.failsToComplete working record then [t.amountError record] else []

/-- What stands of a record in the end in the period that received it: its charge, the flag if it was turned
away, and the error of its taking or its completion. -/
structure Received (working : Option Amount) (record : Absence) (p t : Period) : Prop where
  terms : t.terms = p.terms
  charges (d : Date) :
    t.chargesOf record.id d = if d = record.date then p.dues working record else []
  exceeded : t.findings.contains record.id .limitExceeded = true ↔ p.Rejects working record
  errors : t.findings.errorsOf record.id =
    if record.weight? p.unit working = none ∨ t.failsToComplete working record = true then
      [t.amountError record] else []
  compromised : record.weight? p.unit working = none → t.isCompromisedOn record.date = true

section Offered

variable {working : Option Amount} {p q t : Period}

theorem Untouched.passed (untouched : Untouched record q)
    (kept : Spares record.id (attach working record q) t) : Passed working record t := by
  have terms : t.terms = q.terms := kept.terms.trans (attach_terms working record q)
  refine ⟨fun d => ?_, ?_, fun takes => ?_⟩
  · rw [kept.charges, chargesOf_attach, untouched.charges]
  · rw [kept.exceeded, contains_attach, untouched.exceeded]
  · rw [takes_congr (Period.place_of_terms terms)] at takes
    have none := untouched.errors takes
    rw [kept.errors, errorsOf_attach (.inl none), none, failsToComplete_congr terms,
      amountError_congr terms]

theorem Untouched.received (untouched : Untouched record p) (takes : p.takes record = true)
    (kept : Spares record.id (attach working record (p.receive working record)) t) :
    Received working record p t := by
  have own : (p.receive working record).terms = t.terms :=
    (kept.terms.trans (attach_terms working record _)).symm
  have terms : t.terms = p.terms := own.symm.trans (terms_receive working record p)
  have met : (p.receive working record).findings.errorsOf record.id =
      if (record.weight? p.unit working).isNone then [t.amountError record] else [] := by
    rw [errorsOf_receive (untouched.errors takes), amountError_congr terms]
  have blank : (p.receive working record).findings.errorsOf record.id = [] ∨
      (p.receive working record).findings.errorsOf record.id =
        [(p.receive working record).amountError record] := by
    rw [met, amountError_congr own]
    split
    · exact .inr rfl
    · exact .inl rfl
  refine ⟨terms, fun d => ?_, ?_, ?_, fun unknown => ?_⟩
  · rw [kept.charges, chargesOf_attach, chargesOf_receive untouched.charges]
  · rw [kept.exceeded, contains_attach, exceeded_receive untouched.exceeded]
  · rw [kept.errors, errorsOf_attach blank, failsToComplete_congr own, amountError_congr own, met]
    cases record.weight? p.unit working with
    | none => simp
    | some amount => simp
  · exact kept.compromised (isCompromisedOn_attach (isCompromisedOn_receive unknown))

/-- What a period gains by receiving a record that has left no trace before. -/
theorem Untouched.gained_receive (untouched : Untouched record p) (takes : p.takes record = true) :
    p.gained (p.receive working record) =
      if (record.weight? p.unit working).isNone then [p.amountError record] else [] := by
  have new : p.amountError record ∉ p.findings.critical := by
    intro held
    have named := Findings.mem_errorsOf.2 ⟨held, rfl⟩
    rw [untouched.errors takes] at named
    exact absurd named List.not_mem_nil
  cases computed : record.weight? p.unit working with
  | none =>
    have critical : (p.receive working record).findings.critical =
        p.findings.critical ++ [p.amountError record] := by
      rw [receive_of_none computed, compromise, Findings.addCritical, if_neg new]
    have old : (p.findings.critical.filter fun error => error ∉ p.findings.critical) = [] :=
      gained_of_same (p := p) (q := p) rfl
    rw [gained, critical, List.filter_append, old]
    simp [new]
  | some amount =>
    rw [receive_of_some computed]
    exact gained_of_same (by rw [charge_findings, critical_flag])

end Offered

structure Lodged (working : Option Amount) (record : Absence) (chain : Chain) (i : Nat)
    (p s : Period) : Prop where
  there : chain.periods[i]? = some s
  received : Received working record p s
  passed {j : Nat} {t : Period} : chain.periods[j]? = some t → j ≠ i → Passed working record t

section Lodged

variable {working : Option Amount} {periods : List Period} {i : Nat} {p s : Period}

theorem lodged_of_offered (untouched : ∀ q ∈ periods, Untouched record q)
    (fit : FirstFit working record periods i p)
    (kept : List.Forall₂ (fun q t => Spares record.id (attach working record q) t)
      (periods.set i (p.receive working record)) chain.periods) :
    ∃ s, Lodged working record chain i p s := by
  have hp : p ∈ periods := List.mem_of_getElem? fit.there
  obtain ⟨bound, -⟩ := List.getElem?_eq_some_iff.1 fit.there
  obtain ⟨s, there, kept_s⟩ := forall₂_getElem? kept.flip (List.getElem?_set_self bound)
  refine ⟨s, there, (untouched p hp).received fit.takes kept_s, fun {j t} ht other => ?_⟩
  obtain ⟨q, hq, kept_t⟩ := forall₂_getElem? kept ht
  rw [List.getElem?_set_ne other.symm] at hq
  exact (untouched q (List.mem_of_getElem? hq)).passed kept_t

/-- The charges of the record are those in the period that received it. -/
theorem Lodged.charges (lodged : Lodged working record chain i p s) :
    (chain.charges.filter fun c => c.absence.id = record.id) = p.dues working record := by
  rw [Chain.charges, List.filter_flatMap, flatMap_of_sole lodged.there, filter_charges,
    lodged.received.charges, if_pos rfl]
  · intro d elsewhere
    rw [lodged.received.charges, if_neg elsewhere]
  · intro j t ht other
    have none := (lodged.passed ht other).charges
    rw [filter_charges fun d _ => none d]
    exact none record.date

theorem Lodged.errors (lodged : Lodged working record chain i p s) {j : Nat} {t : Period}
    (ht : chain.periods[j]? = some t) (takes : t.takes record = true) :
    t.findings.errorsOf record.id =
      if j = i ∧ record.weight? p.unit working = none ∨ t.failsToComplete working record = true then
        [t.amountError record] else [] := by
  by_cases same : j = i
  · subst same
    rw [lodged.there, Option.some.injEq] at ht
    subst ht
    rw [lodged.received.errors]
    simp
  · rw [(lodged.passed ht same).errors takes]
    simp [same]

/-- Some period has flagged the record exactly when the one that received it had turned it away. -/
theorem Lodged.flagged_iff (lodged : Lodged working record chain i p s) :
    (∃ t ∈ chain.periods, t.findings.contains record.id .limitExceeded = true) ↔
      p.Rejects working record := by
  rw [← lodged.received.exceeded]
  constructor
  · rintro ⟨t, ht, flag⟩
    obtain ⟨j, ht⟩ := List.mem_iff_getElem?.1 ht
    by_cases same : j = i
    · subst same
      rw [lodged.there, Option.some.injEq] at ht
      exact ht ▸ flag
    · rw [(lodged.passed ht same).exceeded] at flag
      cases flag
  · exact fun flag => ⟨s, List.mem_of_getElem? lodged.there, flag⟩

/-- A record that was offered to periods without a trace of it has, in the end, left that of the first
fit. -/
theorem charged_of_offered (untouched : ∀ q ∈ periods, Untouched record q)
    (fit : FirstFit working record periods i p)
    (offered : offer working record periods = (periods.set i (p.receive working record), true))
    (lodged : Lodged working record chain i p s) (gathered : chain.Gathered) :
    Charged working record periods chain i p s := by
  have terms := lodged.received.terms
  have raised : raised periods (offer working record periods).1 =
      if (record.weight? p.unit working).isNone then [s.amountError record] else [] := by
    rw [offered, raised_set fit.there, amountError_congr terms]
    exact (untouched p (List.mem_of_getElem? fit.there)).gained_receive fit.takes
  refine ⟨fit, offered, lodged.there, terms, fun {amount} computed => ?_, fun unknown => ?_,
    lodged.errors, ?_⟩
  · have dues : p.dues working record = [p.assess record amount] := by
      rw [Period.dues, computed]
      rfl
    have mem : p.assess record amount ∈ s.chargesOf record.id record.date := by
      rw [lodged.received.charges, if_pos rfl, dues]
      exact List.mem_singleton_self _
    rw [lodged.charges, raised, computed]
    exact ⟨dues, (List.mem_filter.1 mem).1, rfl⟩
  · have dues : p.dues working record = [] := by
      rw [Period.dues, unknown]
      rfl
    have held : s.amountError record ∈ s.findings.errorsOf record.id := by
      rw [lodged.received.errors, if_pos (.inl unknown)]
      exact List.mem_singleton_self _
    have critical := gathered.critical.2
      ⟨s, List.mem_of_getElem? lodged.there, (Findings.mem_errorsOf.1 held).1⟩
    rw [lodged.charges, raised, unknown]
    exact ⟨dues, rfl, List.count_eq_one_of_mem gathered.nodup critical,
      lodged.received.compromised unknown⟩
  · rw [gathered.problems, lodged.flagged_iff, fit.rejects_iff]

end Lodged

/-- Every charge of a filled chain is of a record of the person that the period takes, on its date. -/
theorem charges_of_records (hlaid : layOut rules pivot = .ok laid)
    (h : fill rules working pivot laid records = .ok chain) {s : Period} (hs : s ∈ chain.periods)
    {d : Date} {day : PeriodDay} (hd : s.day? d = some day) {c : Charge} (hc : c ∈ day.charges) :
    c.absence ∈ records ∧ c.absence.person = laid.person ∧ c.absence.date = d ∧
      s.takes c.absence = true := by
  obtain ⟨-, rfl⟩ := fill_ok h
  obtain ⟨q, hq, rfl⟩ := List.mem_map.1 hs
  have settled := (tidy_bringAll hlaid _ _ hq).charges_settle d
  rw [dayAt_of_day? hd] at settled
  obtain ⟨seeded, hseeded, gains⟩ := forall₂_mem_right (bringAll_gains _ _ _) hq
  obtain ⟨p, hp, rfl⟩ := List.mem_map.1 hseeded
  rcases gains.charges (settled ▸ hc) with old | ⟨mem, dated, takes⟩
  · have days := (days_seedPeriod rules working pivot records p).trans ((layOut_fresh hlaid).2.2 p hp)
    rw [Period.dayAt, Period.day?, days] at old
    exact absurd old List.not_mem_nil
  · obtain ⟨held, person, -⟩ := mem_concerned.1 mem
    rw [takes_congr gains.place.symm, ← takes_congr (Period.place_of_terms (terms_settle q))] at takes
    exact ⟨held, person, dated, takes⟩

/-- Charging is a lossless first fit: whatever chain is laid out and filled with records of distinct
identifiers, every record that a period takes goes to the first fit, and nothing else is charged. -/
theorem fill_lossless (hlaid : layOut rules pivot = .ok laid)
    (distinct : (records.map (·.id)).Nodup)
    (h : fill rules working pivot laid records = .ok chain) :
    Lossless rules working pivot laid records chain where
  placed {record} hrecord person takes := by
    obtain ⟨found, foundBy, takes, untouched, kept⟩ :=
      exists_found hlaid distinct h hrecord person takes
    obtain ⟨i, p, fit, offered⟩ := offer_firstFit (working laid.person record.date) takes
    rw [offered] at kept
    obtain ⟨s, lodged⟩ := lodged_of_offered untouched fit kept
    exact ⟨found, i, p, s, foundBy,
      charged_of_offered untouched fit offered lodged (gathered_fill hlaid h)⟩
  others hs hd hc := charges_of_records hlaid h hs hd hc

def sampleShort : RuleTree :=
  .ofLists
    [⟨"OLD", "", .programmed, .previousYear "NEW" 3, some ⟨.units, .ofList ["HOL"], 100⟩, none,
      some "NEW", false, false⟩,
    ⟨"NEW", "", .programmed, .year, some ⟨.units, .ofList ["HOL"], 100⟩, none, none, false, false⟩] []

def sampleFebruary : Pivot :=
  ⟨1, "NEW", .sample 2024 2 1, ⟨[⟨.sample 2020 1 1, none⟩], [], []⟩⟩

def sampleDays : List Absence :=
  [⟨⟨1, "HOL", .sample 2024 2 1, .allDay, none, none⟩, 1⟩,
    ⟨⟨1, "HOL", .sample 2024 2 2, .allDay, none, none⟩, 2⟩,
    ⟨⟨1, "HOL", .sample 2024 2 5, .allDay, none, none⟩, 3⟩,
    ⟨⟨1, "HOL", .sample 2024 2 6, .specifiedMinutes, some 60, none⟩, 4⟩]

/-- The first day fits into the carry-over and the second behind it; the third goes to the last period and is
flagged, and the hour compromises the first. -/
theorem third_day_exceeds : ∃ laid chain, layOut sampleShort sampleFebruary = .ok laid ∧
    fill sampleShort .unknown sampleFebruary laid sampleDays = .ok chain ∧
    Lossless sampleShort .unknown sampleFebruary laid sampleDays chain ∧
    chain.periods.map (fun s => s.charges.map (·.absence.id)) = [[1], [2, 3]] ∧
    chain.findings.contains 2 .limitExceeded = false ∧
    chain.findings.contains 3 .limitExceeded = true ∧
    chain.findings.critical.map (·.absence) = [some 4] := by
  have filled : ((layOut sampleShort sampleFebruary).toOption.any fun laid =>
      (fill sampleShort .unknown sampleFebruary laid sampleDays).toOption.any fun chain => decide (
        chain.periods.map (fun s => s.charges.map (·.absence.id)) = [[1], [2, 3]] ∧
        chain.findings.contains 2 .limitExceeded = false ∧
        chain.findings.contains 3 .limitExceeded = true ∧
        chain.findings.critical.map (·.absence) = [some 4])) = true := by cbv
  obtain ⟨laid, hlaid, filled⟩ := (Option.any_eq_true _ _).1 filled
  obtain ⟨chain, h, facts⟩ := (Option.any_eq_true _ _).1 filled
  have hlaid := ok_of_toOption hlaid
  have h := ok_of_toOption h
  exact ⟨laid, chain, hlaid, h, fill_lossless hlaid (by decide) h, of_decide_eq_true facts⟩

end Chain

end Entitlement
