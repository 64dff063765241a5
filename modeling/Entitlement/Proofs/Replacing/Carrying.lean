import Mathlib.Data.List.Pairwise
import Entitlement.Proofs.Ledger.Records
import Entitlement.Proofs.Replacing.Planning

/-!
What carrying out the repair of a chain does to the records of a ledger. The records it removes and those
it writes replace in periods of the chain; of records that differ in nothing but their identifiers and
amounts it removes all or none, and it writes none that is there already.
-/

namespace Entitlement

def Absence.Doubles (a b : Absence) : Prop :=
  a.person = b.person ∧ a.date = b.date ∧ a.code = b.code

theorem Absence.Doubles.symm {a b : Absence} (h : a.Doubles b) : b.Doubles a :=
  ⟨h.1.symm, h.2.1.symm, h.2.2.symm⟩

namespace Ledger

/-- The records deleted are those that were to be removed and were there. -/
theorem mem_removeAll {ledger : Ledger} {ids : List AbsenceId} {id : AbsenceId} :
    id ∈ (ledger.removeAll ids).1 ↔ id ∈ ids ∧ ledger.holds id = true := by
  induction ids generalizing ledger with
  | nil => exact ⟨fun h => absurd h List.not_mem_nil, fun h => absurd h.1 List.not_mem_nil⟩
  | cons first rest ih =>
    have left : (ledger.removeAbsence first).2.holds id = true ↔ ledger.holds id = true ∧ id ≠ first := by
      rw [holds, removeAbsence_record?]
      split
      · next same => simp [same]
      · next other => exact (and_iff_left other).symm
    have found : (ledger.removeAbsence first).1 = ledger.holds first := by
      unfold removeAbsence
      split
      · next held => exact held.symm
      · next gone => exact (Bool.eq_false_iff.2 gone).symm
    simp only [removeAll, found]
    split
    · next held =>
      rw [List.mem_cons, ih, left, List.mem_cons]
      constructor
      · rintro (rfl | ⟨mem, here, -⟩)
        · exact ⟨.inl rfl, held⟩
        · exact ⟨.inr mem, here⟩
      · rintro ⟨mem, here⟩
        by_cases same : id = first
        · exact .inl same
        · exact .inr ⟨mem.resolve_left same, here, same⟩
    · next gone =>
      rw [ih, left, List.mem_cons]
      constructor
      · rintro ⟨mem, here, -⟩
        exact ⟨.inr mem, here⟩
      · rintro ⟨mem, here⟩
        have other : id ≠ first := fun same => gone (same ▸ here)
        exact ⟨mem.resolve_left other, here, other⟩

/-- The records deleted, and those found gone, are those that were to be removed. -/
theorem mem_of_removeAll {ledger : Ledger} {ids : List AbsenceId} {id : AbsenceId}
    (h : id ∈ (ledger.removeAll ids).1 ∨ id ∈ (ledger.removeAll ids).2.1) : id ∈ ids := by
  induction ids generalizing ledger with
  | nil => exact absurd (or_self_iff.1 h) List.not_mem_nil
  | cons first rest ih =>
    have later (h : id ∈ ((ledger.removeAbsence first).2.removeAll rest).1 ∨
        id ∈ ((ledger.removeAbsence first).2.removeAll rest).2.1) : id ∈ first :: rest :=
      List.mem_cons_of_mem _ (ih h)
    simp only [removeAll] at h
    split at h
    · rcases h with deleted | skipped
      · rcases List.mem_cons.1 deleted with rfl | deleted
        · exact List.mem_cons_self
        · exact later (.inl deleted)
      · exact later (.inr skipped)
    · rcases h with deleted | skipped
      · exact later (.inl deleted)
      · rcases List.mem_cons.1 skipped with rfl | skipped
        · exact List.mem_cons_self
        · exact later (.inr skipped)

theorem mem_of_carryOut {ledger ledger' : Ledger} {repair : Repair} {effect : RepairEffect}
    (h : carryOut repair ledger = .ok effect ledger') {id : AbsenceId}
    (hid : id ∈ effect.deleted ++ effect.skipped) : id ∈ repair.removals.map (·.absence) := by
  obtain ⟨deleted, skipped, -⟩ := carryOut_steps h
  rw [deleted, skipped] at hid
  exact mem_of_removeAll (List.mem_append.1 hid)

theorem deleted_of_carryOut {ledger ledger' : Ledger} {repair : Repair} {effect : RepairEffect}
    (h : carryOut repair ledger = .ok effect ledger') {id : AbsenceId} :
    id ∈ effect.deleted ↔ id ∈ repair.removals.map (·.absence) ∧ ledger.holds id = true := by
  rw [(carryOut_steps h).1]
  exact mem_removeAll

end Ledger

namespace Chain

/-- The records of a ledger after a repair was carried out on it. -/
theorem carriedOut_of_ledger {ledger ledger' : Ledger} (sound : ledger.Sound) {rules : RuleTree}
    {chain : Chain} {repair : Repair} {effect : RepairEffect} (planned : chain.repair rules = .ok repair)
    (carried : Ledger.carryOut repair ledger = .ok effect ledger') :
    additions rules chain.repairDays = .ok repair.additions ∧ ledger'.Sound ∧
      CarriedOut chain repair.additions chain.person ledger.records ledger'.records := by
  obtain ⟨sound', -, records, made⟩ := Ledger.carryOut_ok sound carried
  obtain ⟨plans, removals, person⟩ := repair_ok planned
  rw [removals] at records
  rw [person] at made
  refine ⟨plans, sound', fun ha hb same => sound.eq_of_id ha hb same, fun ha stays => ?_,
    fun ha => ?_, fun hadd => ?_⟩
  · rw [records]
    exact List.mem_append_left _ (List.mem_filter.2 ⟨ha, by simpa using stays⟩)
  · rw [records] at ha
    rcases List.mem_append.1 ha with old | new
    · obtain ⟨mem, stays⟩ := List.mem_filter.1 old
      exact .inl ⟨mem, by simpa using stays⟩
    · obtain ⟨addition, hadd, -, day, draft⟩ := forall₂_mem_right made new
      refine .inr ⟨addition, hadd, ?_, ?_, ?_⟩
      · exact congrArg AbsenceDraft.person draft
      · exact congrArg AbsenceDraft.code draft
      · exact congrArg AbsenceDraft.date draft
  · obtain ⟨a, ha, -, day, draft⟩ := forall₂_mem_right made.flip hadd
    refine ⟨a, ?_, ?_, ?_, ?_⟩
    · rw [records]
      exact List.mem_append_right _ ha
    · exact congrArg AbsenceDraft.person draft
    · exact congrArg AbsenceDraft.code draft
    · exact congrArg AbsenceDraft.date draft

/-- The justification found for a code has no amount. -/
theorem justificationFor_ok {rules : RuleTree} {code : Code} {kind : Justification}
    (h : rules.justificationFor code = .ok kind) : kind = .nothing := by
  unfold RuleTree.justificationFor at h
  split at h
  · cases h
  · next entry found =>
    split at h
    · next single =>
      cases h
      have mem : kind ∈ entry.uncountedKinds := single ▸ List.mem_singleton_self kind
      exact of_decide_eq_true (List.mem_filter.1 mem).2
    · cases h
    · cases h

theorem addition?_kind {rules : RuleTree} {period : Period} {day : PeriodDay} {addition : Addition}
    (h : addition? rules period day = .ok (some addition)) : addition.kind = .nothing := by
  unfold addition? at h
  split at h
  · cases h
  · split at h
    · obtain ⟨kind, found, h⟩ := bind_ok h
      cases h
      exact justificationFor_ok found
    · cases h

/-- Additions stand apart as the days do that they are made for. -/
theorem additions_pairwise {rules : RuleTree} {R : Period × PeriodDay → Period × PeriodDay → Prop}
    {S : Addition → Addition → Prop} {days : List (Period × PeriodDay)}
    (sends : ∀ e ∈ days, ∀ e' ∈ days, ∀ x y, R e e' → addition? rules e.1 e.2 = .ok (some x) →
      addition? rules e'.1 e'.2 = .ok (some y) → S x y)
    {planned : List Addition} (h : additions rules days = .ok planned) (apart : days.Pairwise R) :
    planned.Pairwise S := by
  induction days generalizing planned with
  | nil =>
    cases h
    exact List.Pairwise.nil
  | cons e rest ih =>
    obtain ⟨own, first, h⟩ := bind_ok h
    obtain ⟨others, later, h⟩ := bind_ok h
    cases h
    obtain ⟨ahead, behind⟩ := List.pairwise_cons.1 apart
    have tail := ih (fun e he e' he' => sends e (List.mem_cons_of_mem _ he) e' (List.mem_cons_of_mem _ he'))
      later behind
    refine List.pairwise_append.2 ⟨?_, tail, fun x hx y hy => ?_⟩
    · cases own with
      | none => exact List.Pairwise.nil
      | some x => exact List.pairwise_singleton S x
    · obtain ⟨e', he', made⟩ := (mem_additions later).1 hy
      rw [Option.mem_toList] at hx
      exact sends e List.mem_cons_self e' (List.mem_cons_of_mem _ he') x y (ahead e' he')
        (first.trans (congrArg Except.ok hx)) made

private theorem pairwise_of_forall₂ {α β : Type} {R : α → β → Prop} {S : α → α → Prop}
    {T : β → β → Prop} (sends : ∀ x y a b, S x y → R x a → R y b → T a b) {l : List α} {m : List β}
    (matched : List.Forall₂ R l m) (h : l.Pairwise S) : m.Pairwise T := by
  induction matched with
  | nil => exact List.Pairwise.nil
  | @cons x a l m first rest ih =>
    obtain ⟨ahead, behind⟩ := List.pairwise_cons.1 h
    refine List.pairwise_cons.2 ⟨fun b hb => ?_, ih behind⟩
    obtain ⟨y, hy, second⟩ := forall₂_mem_right rest hb
    exact sends x y a b (ahead y hy) first second

/-- Days of a repair are related as the dates of one period and the periods of the chain are. -/
theorem repairDays_apart {R : Period × PeriodDay → Period × PeriodDay → Prop} {chain : Chain}
    {person : PersonId} {records : List Absence} (settled : ∀ s ∈ chain.periods, Settled person records s)
    (within : ∀ s day day', day.date < day'.date → R (s, day) (s, day'))
    (across : chain.periods.Pairwise fun s t => ∀ day day', R (s, day) (t, day')) :
    chain.repairDays.Pairwise R := by
  refine List.pairwise_flatMap.2 ⟨fun s hs => ?_, ?_⟩
  · refine List.pairwise_map.2 (List.Pairwise.filter _ (List.pairwise_map.2 ?_))
    refine s.days.ascending.imp_of_mem fun {e e'} he he' before => within s e.2 e'.2 ?_
    have date {e : Date × PeriodDay} (he : e ∈ s.days.toList) : e.2.date = e.1 :=
      (settled s (List.mem_filter.1 hs).1).date (OrderedMap.get?_eq_some_iff.2 he)
    rw [date he, date he']
    exact of_decide_eq_true before
  · refine (across.filter _).imp fun {s t} apart e he e' he' => ?_
    obtain ⟨day, -, rfl⟩ := List.mem_map.1 he
    obtain ⟨day', -, rfl⟩ := List.mem_map.1 he'
    exact apart day day'

/-- No two days of a repair share a date and a code that replaces on both. -/
theorem repairDays_pairwise {chain : Chain} {person : PersonId} {records : List Absence}
    (settled : ∀ s ∈ chain.periods, Settled person records s)
    (once : chain.links.Pairwise fun c c' => ∀ code, c.replaces code = true → c'.replaces code = false) :
    chain.repairDays.Pairwise fun e e' => e.2.date = e'.2.date →
      ∀ code, e.1.category.replaces code = true → e'.1.category.replaces code = false := by
  refine repairDays_apart settled (fun s day day' before same => ?_)
    ((List.pairwise_map.1 once).imp fun {s t} apart day day' _ => apart)
  rw [same] at before
  exact absurd before (Date.lt_irrefl _)

def Replaceable (chain : Chain) (a : Absence) : Prop :=
  a.person = chain.person ∧ ∃ p ∈ chain.periods, p.category.automatic = true ∧ p.replaces a = true

structure Amends (chain : Chain) (before after : Ledger) (removed : List AbsenceId)
    (inserted : List Absence) : Prop where
  records : after.records = (before.records.filter fun a => a.id ∉ removed) ++ inserted
  held {id : AbsenceId} : id ∈ removed → ∃ a ∈ before.records, a.id = id
  removes {a : Absence} : a ∈ before.records → a.id ∈ removed → chain.Replaceable a
  alike {a b : Absence} : a ∈ before.records → b ∈ before.records → a.Doubles b → a.id ∈ removed →
    b.id ∈ removed
  writes {a : Absence} : a ∈ inserted →
    before.nextId ≤ a.id ∧ a.kind = .nothing ∧ chain.Replaceable a
  lacked {a b : Absence} : a ∈ inserted → b ∈ before.records → ¬ b.Doubles a

section Amends

variable {before : Ledger} {rules : RuleTree} {chain : Chain} {records : List Absence}
  (settled : ∀ s ∈ chain.periods, Settled chain.person records s)

include settled

/-- The day of a repair lies in its period. -/
theorem covers_of_repairDays {t : Period} {day : PeriodDay} (hday : (t, day) ∈ chain.repairDays) :
    t ∈ chain.periods ∧ day.date ∈ t.range ∧ ∀ r, day.required = some r →
      t.category.replaces r.code = true := by
  obtain ⟨ht, -, ⟨d, hd⟩, -⟩ := mem_repairDays.1 hday
  have on : day.date = d := (settled t ht).date hd
  exact ⟨ht, on ▸ (settled t ht).within hd, fun r asked => (settled t ht).required hd asked⟩

/-- A removed record stands on a day of the repair that requires another code. -/
theorem stands_of_removed (known : ∀ a ∈ records, a ∈ before.records) {id : AbsenceId}
    (h : id ∈ chain.removals.map (·.absence)) : ∃ e ∈ chain.repairDays, ∃ a ∈ e.2.wrongReplacings,
      a ∈ before.records ∧ a.person = chain.person ∧ e.1.replaces a = true ∧ e.2.date = a.date ∧
        a.id = id := by
  obtain ⟨⟨t, day⟩, hday, a, wrong, same⟩ := mem_removals.1 h
  obtain ⟨ht, -, ⟨d, hd⟩, -⟩ := mem_repairDays.1 hday
  have stands : a ∈ day.replacings := by
    unfold PeriodDay.wrongReplacings at wrong
    split at wrong
    · exact absurd wrong List.not_mem_nil
    · exact (List.mem_filter.1 wrong).1
  obtain ⟨mem, mine, replaces, date⟩ := mem_replacingOn.1 (((settled t ht).lists hd a).1 stands)
  exact ⟨(t, day), hday, a, wrong, known a mem, mine, replaces, ((settled t ht).date hd).trans date,
    same⟩

section Complete

variable (complete : ∀ a ∈ before.records, a.person = chain.person → ∀ p ∈ chain.periods,
  a.date ∈ p.range → a ∈ records)

include complete

/-- A record of the person on a day of the repair, of a code that replaces there, is listed. -/
theorem mem_replacings_of_repairDays {e : Period × PeriodDay} (he : e ∈ chain.repairDays) {b : Absence}
    (hb : b ∈ before.records) (mine : b.person = chain.person) (date : e.2.date = b.date)
    (code : e.1.category.replaces b.code = true) : b ∈ e.2.replacings := by
  obtain ⟨ht, inside, -⟩ := covers_of_repairDays settled he
  obtain ⟨-, -, ⟨d, hd⟩, -⟩ := mem_repairDays.1 he
  rw [date] at inside
  have on : d = b.date := ((settled e.1 ht).date hd).symm.trans date
  have covered : e.1.covers b.date = true := DateRange.contains_iff.2 inside
  apply ((settled e.1 ht).lists hd b).2
  apply mem_replacingOn.2
  refine ⟨complete b hb mine e.1 ht inside, mine, ?_, on⟩
  rw [Period.replaces, covered, code, Bool.and_self]

/-- With a record all its doubles are removed. -/
theorem removed_of_doubles (sound : before.Sound) (known : ∀ a ∈ records, a ∈ before.records)
    {a b : Absence} (ha : a ∈ before.records) (hb : b ∈ before.records) (doubles : a.Doubles b)
    (h : a.id ∈ chain.removals.map (·.absence)) : b.id ∈ chain.removals.map (·.absence) := by
  obtain ⟨e, he, c, wrong, mem, mine, replaces, date, same⟩ := stands_of_removed settled known h
  obtain rfl := sound.eq_of_id mem ha same
  obtain ⟨person, dated, coded⟩ := doubles
  have code : e.1.category.replaces b.code = true := coded ▸ (Bool.and_eq_true_iff.1 replaces).2
  have stands := mem_replacings_of_repairDays settled complete he hb (person ▸ mine) (date.trans dated) code
  apply mem_removals.2
  refine ⟨e, he, b, ?_, rfl⟩
  unfold PeriodDay.wrongReplacings at wrong ⊢
  split at wrong
  · exact absurd wrong List.not_mem_nil
  · next late =>
    rw [if_neg late]
    apply List.mem_filter.2
    rw [← coded]
    exact ⟨stands, (List.mem_filter.1 wrong).2⟩

end Complete

variable {planned : List Addition} (plans : additions rules chain.repairDays = .ok planned)

include plans

/-- A written record has the code that some day of the repair requires and lacks. -/
theorem asked_of_inserted {inserted : List Absence}
    (made : List.Forall₂ (before.Makes chain.person) planned inserted) {a : Absence}
    (ha : a ∈ inserted) : before.nextId ≤ a.id ∧ a.kind = .nothing ∧ a.person = chain.person ∧
      ∃ e ∈ chain.repairDays, e.1.replaces a = true ∧ e.2.date = a.date ∧
        ∀ b ∈ e.2.replacings, b.code ≠ a.code := by
  obtain ⟨addition, h, fresh, day, draft⟩ := forall₂_mem_right made ha
  obtain ⟨⟨t, day⟩, hday, asks⟩ := (mem_additions plans).1 h
  obtain ⟨required, asked, lacks, dated, coded⟩ := addition?_ok asks
  obtain ⟨ht, inside, coding⟩ := covers_of_repairDays settled hday
  have code : a.code = required.code := (congrArg AbsenceDraft.code draft).trans coded
  have date : a.date = day.date := (congrArg AbsenceDraft.date draft).trans dated
  have kind : a.kind = addition.kind := congrArg AbsenceDraft.kind draft
  have covered : t.covers a.date = true := DateRange.contains_iff.2 (date ▸ inside)
  refine ⟨fresh, kind.trans (addition?_kind asks), congrArg AbsenceDraft.person draft, (t, day), hday,
    ?_, date.symm, fun b hb same => ?_⟩
  · rw [Period.replaces, covered, code, coding required asked, Bool.and_self]
  · dsimp only at asked
    simp only [PeriodDay.lacksReplacing, asked, Option.any_some, Bool.and_eq_true, Bool.not_eq_true',
      List.any_eq_false, decide_eq_true_eq] at lacks
    exact lacks.2 b hb (same.trans code)

/-- No two additions have one date and one code. -/
theorem additions_apart
    (once : chain.links.Pairwise fun c c' => ∀ code, c.replaces code = true → c'.replaces code = false) :
    planned.Pairwise fun x y => ¬ (x.date = y.date ∧ x.code = y.code) := by
  refine additions_pairwise (fun e he e' he' x y apart hx hy same => ?_) plans
    (repairDays_pairwise settled once)
  obtain ⟨r, asked, -, date, code⟩ := addition?_ok hx
  obtain ⟨r', asked', -, date', code'⟩ := addition?_ok hy
  have first := (covers_of_repairDays settled he).2.2 r asked
  have second := (covers_of_repairDays settled he').2.2 r' asked'
  rw [← code', ← same.2, code, apart (date.symm.trans (same.1.trans date')) r.code first] at second
  cases second

/-- No two written records are doubles. -/
theorem inserted_apart
    (once : chain.links.Pairwise fun c c' => ∀ code, c.replaces code = true → c'.replaces code = false)
    {inserted : List Absence} (made : List.Forall₂ (before.Makes chain.person) planned inserted)
    {a b : Absence} (ha : a ∈ inserted) (hb : b ∈ inserted) (doubles : a.Doubles b) : a = b := by
  have different : inserted.Pairwise fun a b => ¬ a.Doubles b := by
    apply pairwise_of_forall₂ _ made (additions_apart settled plans once)
    rintro x y a b apart ⟨-, day, draft⟩ ⟨-, day', draft'⟩ ⟨-, date, code⟩
    apply apart
    constructor
    · exact (congrArg AbsenceDraft.date draft).symm.trans (date.trans (congrArg AbsenceDraft.date draft'))
    · exact (congrArg AbsenceDraft.code draft).symm.trans (code.trans (congrArg AbsenceDraft.code draft'))
  have : Std.Symm fun a b : Absence => ¬ a.Doubles b := ⟨fun _ _ apart doubles => apart doubles.symm⟩
  by_contra other
  exact different.forall ha hb other doubles

end Amends

/-- Carrying out the repair of a chain that was filled with all records in its periods. -/
theorem amends_of_carryOut {before after : Ledger} (sound : before.Sound) {rules : RuleTree}
    {chain : Chain} {repair : Repair} {effect : RepairEffect} {records : List Absence}
    (planned : chain.repair rules = .ok repair)
    (carried : Ledger.carryOut repair before = .ok effect after)
    (settled : ∀ s ∈ chain.periods, Settled chain.person records s)
    (known : ∀ a ∈ records, a ∈ before.records)
    (complete : ∀ a ∈ before.records, a.person = chain.person → ∀ p ∈ chain.periods,
      a.date ∈ p.range → a ∈ records) :
    Amends chain before after (chain.removals.map (·.absence)) effect.inserted := by
  obtain ⟨-, -, split, made⟩ := Ledger.carryOut_ok sound carried
  obtain ⟨plans, removals, person⟩ := repair_ok planned
  rw [removals] at split
  rw [person] at made
  refine ⟨split, fun h => ?_, fun {a} ha h => ?_, fun ha hb doubles h => ?_, fun {a} ha => ?_,
    fun {a b} ha hb doubles => ?_⟩
  · obtain ⟨e, -, a, -, mem, -, -, -, same⟩ := stands_of_removed settled known h
    exact ⟨a, mem, same⟩
  · obtain ⟨e, he, b, -, mem, mine, replaces, -, same⟩ := stands_of_removed settled known h
    obtain rfl := sound.eq_of_id mem ha same
    obtain ⟨he, automatic, -⟩ := mem_repairDays.1 he
    exact ⟨mine, e.1, he, automatic, replaces⟩
  · exact removed_of_doubles settled complete sound known ha hb doubles h
  · obtain ⟨fresh, kind, mine, e, he, replaces, -⟩ := asked_of_inserted settled plans made ha
    obtain ⟨he, automatic, -⟩ := mem_repairDays.1 he
    exact ⟨fresh, kind, mine, e.1, he, automatic, replaces⟩
  · obtain ⟨-, -, mine, e, he, replaces, date, lacks⟩ := asked_of_inserted settled plans made ha
    obtain ⟨person, dated, coded⟩ := doubles
    have code : e.1.category.replaces b.code = true := coded.symm ▸ (Bool.and_eq_true_iff.1 replaces).2
    have stands := mem_replacings_of_repairDays settled complete he hb (person.trans mine)
      (date.trans dated.symm) code
    exact lacks b stands coded

/-- If no code is replacing in two of the links, carrying out a repair writes no record twice. -/
theorem sole_of_carryOut {before after : Ledger} (sound : before.Sound) {rules : RuleTree}
    {chain : Chain} {repair : Repair} {effect : RepairEffect} {records : List Absence}
    (planned : chain.repair rules = .ok repair)
    (carried : Ledger.carryOut repair before = .ok effect after)
    (once : chain.links.Pairwise fun c c' => ∀ code, c.replaces code = true → c'.replaces code = false)
    (settled : ∀ s ∈ chain.periods, Settled chain.person records s) {a b : Absence}
    (ha : a ∈ effect.inserted) (hb : b ∈ effect.inserted) (doubles : a.Doubles b) : a = b := by
  obtain ⟨-, -, -, made⟩ := Ledger.carryOut_ok sound carried
  obtain ⟨plans, -, person⟩ := repair_ok planned
  rw [person] at made
  exact inserted_apart settled plans once made ha hb doubles

namespace Amends

variable {chain : Chain} {before after : Ledger} {removed : List AbsenceId} {inserted : List Absence}
  (amends : Amends chain before after removed inserted)

include amends

/-- A record is there afterwards if it was there and was not removed, or if it was written. -/
theorem mem_records {a : Absence} :
    a ∈ after.records ↔ (a ∈ before.records ∧ a.id ∉ removed) ∨ a ∈ inserted := by
  rw [amends.records, List.mem_append, List.mem_filter, decide_eq_true_eq]

/-- Of the records that the repair may not touch all stay, and none is new. -/
theorem filter_records {keep : Absence → Bool}
    (spared : ∀ a, chain.Replaceable a → keep a = false) :
    before.records.filter keep = after.records.filter keep := by
  have none : inserted.filter keep = [] :=
    List.filter_eq_nil_iff.2 fun a ha => Bool.eq_false_iff.1 (spared a (amends.writes ha).2.2)
  rw [amends.records, List.filter_append, none, List.append_nil, List.filter_filter]
  apply List.filter_congr
  intro a ha
  cases kept : keep a with
  | false => rw [Bool.false_and]
  | true =>
    rw [Bool.true_and, eq_comm, decide_eq_true_eq]
    intro gone
    rw [spared a (amends.removes ha gone)] at kept
    cases kept

/-- The records that are plain in the chain are the same as before. -/
theorem plain : before.records.filter (isPlain chain.links) = after.records.filter (isPlain chain.links) := by
  apply amends.filter_records
  rintro a ⟨-, p, hp, automatic, replaces⟩
  exact isPlain_eq_false.2
    ⟨p.category, List.mem_map_of_mem hp, automatic, (Bool.and_eq_true_iff.1 replaces).2⟩

end Amends

/-- A repair carried out on a ledger is carried out on the records of a kind, if all that it writes are of
that kind. -/
theorem CarriedOut.within {chain : Chain} {planned : List Addition} {person : PersonId}
    {records records' : List Absence} (done : CarriedOut chain planned person records records')
    {kind : Absence → Prop} {some some' : List Absence} (before : ∀ a, a ∈ some ↔ a ∈ records ∧ kind a)
    (after : ∀ a, a ∈ some' ↔ a ∈ records' ∧ kind a)
    (written : ∀ addition ∈ planned, ∀ a : Absence, a.person = person → a.date = addition.date → kind a) :
    CarriedOut chain planned person some some' where
  distinct {a b} ha hb same := done.distinct ((before a).1 ha).1 ((before b).1 hb).1 same
  kept {a} ha stays := by
    obtain ⟨mem, ofKind⟩ := (before a).1 ha
    exact (after a).2 ⟨done.kept mem stays, ofKind⟩
  origin {a} ha := by
    obtain ⟨mem, ofKind⟩ := (after a).1 ha
    rcases done.origin mem with ⟨old, stays⟩ | new
    · exact .inl ⟨(before a).2 ⟨old, ofKind⟩, stays⟩
    · exact .inr new
  added {addition} hadd := by
    obtain ⟨a, mem, mine, code, date⟩ := done.added hadd
    exact ⟨a, (after a).2 ⟨mem, written addition hadd a mine date⟩, mine, code, date⟩

end Chain

end Entitlement
