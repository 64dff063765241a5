import Entitlement.Proofs.Replacing.Amendment
import Entitlement.Replacing.Repair

/-!
What a repair plans. It removes exactly the wrong records of the days it may touch and adds a record
exactly where one is lacking; carried out on the records of the chain it leaves records that suit every
settled day of an automatic period.
-/

namespace Entitlement

namespace Chain

structure Settled (person : PersonId) (records : List Absence) (s : Period) : Prop where
  date {d : Date} {day : PeriodDay} : s.day? d = some day → day.date = d
  within {d : Date} {day : PeriodDay} : s.day? d = some day → d ∈ s.range
  lists {d : Date} {day : PeriodDay} : s.day? d = some day →
    ∀ a, a ∈ day.replacings ↔ a ∈ replacingOn person s d records
  absent {d : Date} : s.day? d = none → replacingOn person s d records = []
  required {d : Date} {day : PeriodDay} {r : ReplacingCode} : s.day? d = some day →
    day.required = some r → s.category.replaces r.code = true

theorem settled_of_tidy {person : PersonId} {records : List Absence} {p : Period} (tidy : p.Tidy)
    (lists : Lists person records p) : Settled person records p.settle := by
  have place : p.settle.place = p.place := Period.place_of_terms (Period.terms_settle p)
  have range : p.settle.range = p.range := (Prod.mk.inj place).2
  have category : p.settle.category = p.category := (Prod.mk.inj place).1
  have day {d : Date} {day : PeriodDay} (hd : p.settle.day? d = some day) :
      (∃ old, p.day? d = some old) ∧ Period.SameRecords day (p.dayAt d) ∧
        ∀ r, day.required = some r → p.category.replaces r.code = true := by
    have stands : ∃ old, p.day? d = some old := Option.ne_none_iff_exists'.1
      (mt Period.settle_day?_eq_none.2 (by rw [hd]; exact Option.some_ne_none _))
    refine ⟨stands, Period.settle_same tidy hd, fun r hr => ?_⟩
    cases asks : p.category.completion with
    | none =>
      rw [Period.settle_of_none asks] at hd
      rw [← Period.dayAt_of_day? hd, tidy.bare] at hr
      cases hr
    | some completion => exact ((Period.settle_day tidy asks hd).required hr).1
  refine ⟨fun hd => ?_, fun hd => ?_, fun hd a => ?_, fun hd => ?_, fun hd hr => ?_⟩
  · rw [(day hd).2.1.date, tidy.bare]
    rfl
  · obtain ⟨old, hold⟩ := (day hd).1
    exact range ▸ tidy.within hold
  · rw [(day hd).2.1.replacings, lists, Absence.mem_inOrder, replacingOn_congr place]
  · have none := lists
    apply List.eq_nil_iff_forall_not_mem.2
    intro a ha
    rw [replacingOn_congr place, ← Absence.mem_inOrder, ← lists,
      Period.dayAt_of_none (Period.settle_day?_eq_none.1 hd)] at ha
    exact absurd ha List.not_mem_nil
  · rw [category]
    exact (day hd).2.2 _ hr

/-- Every period of a filled chain is settled and stands at a place that was laid out. -/
theorem fill_settled {rules : RuleTree} {working : WorkingTime} {pivot : Pivot} {laid chain : Chain}
    {records : List Absence} (fresh : ∀ p ∈ laid.periods, p.days = ∅)
    (h : fill rules working pivot laid records = .ok chain) :
    chain.person = laid.person ∧ chain.periods.map Period.place = laid.periods.map Period.place ∧
      ∀ s ∈ chain.periods, Settled laid.person records s := by
  obtain ⟨person, -, kept⟩ := fill_keeps h
  refine ⟨person, kept, fun s hs => ?_⟩
  obtain ⟨-, rfl⟩ := fill_ok h
  have places := seeded_places rules working pivot records laid.periods
  have brought := bringAll_brought (working laid.person)
    (concerned laid.periods laid.person records)
    (laid.periods.map (seedPeriod rules working pivot records))
  obtain ⟨p, hp, rfl⟩ := List.mem_map.1 hs
  obtain ⟨b, hb, brought⟩ := forall₂_mem_right brought hp
  obtain ⟨first, hfirst, rfl⟩ := List.mem_map.1 hb
  have empty := (days_seedPeriod rules working pivot records first).trans (fresh first hfirst)
  exact settled_of_tidy (brought.tidy (Period.tidy_of_empty empty))
    (lists_of_brought empty (places ▸ List.mem_map_of_mem hb) brought)

/-- The identifiers a repair removes are those of the wrong records on the days it may touch. -/
theorem mem_removals {chain : Chain} {id : AbsenceId} :
    id ∈ chain.removals.map (·.absence) ↔
      ∃ e ∈ chain.repairDays, ∃ a ∈ e.2.wrongReplacings, a.id = id := by
  have records (name : CategoryName) (l : List Absence) (planned : List Removal) :
      id ∈ (l.foldl (addRemoval name) planned).map (·.absence) ↔
        id ∈ planned.map (·.absence) ∨ ∃ a ∈ l, a.id = id := by
    induction l generalizing planned with
    | nil => simp
    | cons a rest ih =>
        rw [List.foldl_cons, ih, List.exists_mem_cons_iff, addRemoval]
        split
        · next known =>
          constructor
          · rintro (old | later)
            · exact .inl old
            · exact .inr (.inr later)
          · rintro (old | rfl | later)
            · exact .inl old
            · obtain ⟨removal, hr, same⟩ := List.any_eq_true.1 known
              exact .inl (List.mem_map.2 ⟨removal, hr, by simpa using same⟩)
            · exact .inr later
        · simp [or_assoc, eq_comm]
  have days (l : List (Period × PeriodDay)) (planned : List Removal) :
      id ∈ (l.foldl (fun planned e => e.2.wrongReplacings.foldl (addRemoval e.1.name) planned)
          planned).map (·.absence) ↔
        id ∈ planned.map (·.absence) ∨ ∃ e ∈ l, ∃ a ∈ e.2.wrongReplacings, a.id = id := by
    induction l generalizing planned with
    | nil => simp
    | cons e rest ih => rw [List.foldl_cons, ih, records, List.exists_mem_cons_iff, or_assoc]
  apply (days chain.repairDays []).trans
  simp

/-- A repair removes no record twice. -/
theorem removals_nodup (chain : Chain) : (chain.removals.map (·.absence)).Nodup := by
  have records (name : CategoryName) (l : List Absence) {planned : List Removal}
      (once : (planned.map (·.absence)).Nodup) :
      ((l.foldl (addRemoval name) planned).map (·.absence)).Nodup := by
    induction l generalizing planned with
    | nil => exact once
    | cons a rest ih =>
      apply ih
      unfold addRemoval
      split
      · exact once
      · next new =>
        rw [List.map_append]
        refine List.nodup_append.2 ⟨once, List.nodup_singleton _, fun id hid id' hid' same => new ?_⟩
        obtain ⟨removal, hr, named⟩ := List.mem_map.1 hid
        refine List.any_eq_true.2 ⟨removal, hr, decide_eq_true ?_⟩
        exact (named.trans same).trans (List.mem_singleton.1 hid')
  have days (l : List (Period × PeriodDay)) {planned : List Removal}
      (once : (planned.map (·.absence)).Nodup) :
      ((l.foldl (fun planned e => e.2.wrongReplacings.foldl (addRemoval e.1.name) planned)
        planned).map (·.absence)).Nodup := by
    induction l generalizing planned with
    | nil => exact once
    | cons e rest ih => exact ih (records e.1.name e.2.wrongReplacings once)
  exact days chain.repairDays List.nodup_nil

/-- A repair that can be planned adds a record for each day it may touch that lacks one. -/
theorem mem_additions {rules : RuleTree} {days : List (Period × PeriodDay)} {planned : List Addition}
    (h : additions rules days = .ok planned) {addition : Addition} :
    addition ∈ planned ↔ ∃ e ∈ days, addition? rules e.1 e.2 = .ok (some addition) := by
  induction days generalizing planned with
  | nil =>
      cases h
      simp
  | cons e rest ih =>
      obtain ⟨first, hfirst, h⟩ := bind_ok h
      obtain ⟨later, hlater, h⟩ := bind_ok h
      cases h
      rw [List.mem_append, ih hlater, List.exists_mem_cons_iff, hfirst]
      apply or_congr_left
      rw [Option.mem_toList, Except.ok.injEq]

/-- The record a day lacks has the code it requires. -/
theorem addition?_ok {rules : RuleTree} {period : Period} {day : PeriodDay} {addition : Addition}
    (h : addition? rules period day = .ok (some addition)) : ∃ required,
      day.required = some required ∧ day.lacksReplacing = true ∧ addition.date = day.date ∧
        addition.code = required.code := by
  unfold addition? at h
  cases asked : day.required with
  | none =>
    rw [asked] at h
    cases h
  | some required =>
    simp only [asked] at h
    split at h
    · next lacks =>
      obtain ⟨kind, -, h⟩ := bind_ok h
      cases h
      exact ⟨required, rfl, lacks, rfl, rfl⟩
    · cases h

/-- A day the repair may touch that lacks a record gets one. -/
theorem additions_of_lacks {rules : RuleTree} {days : List (Period × PeriodDay)}
    {planned : List Addition} (h : additions rules days = .ok planned) {e : Period × PeriodDay}
    (he : e ∈ days) (lacks : e.2.lacksReplacing = true) : ∃ addition ∈ planned,
      ∃ required, e.2.required = some required ∧ addition.date = e.2.date ∧
        addition.code = required.code := by
  induction days generalizing planned with
  | nil => exact absurd he List.not_mem_nil
  | cons first rest ih =>
      obtain ⟨own, hfirst, h⟩ := bind_ok h
      obtain ⟨later, hlater, h⟩ := bind_ok h
      cases h
      rcases List.mem_cons.1 he with rfl | he
      · have asked : ∃ required, e.2.required = some required := by
          rw [PeriodDay.lacksReplacing] at lacks
          cases asked : e.2.required with
          | none => simp [asked] at lacks
          | some required => exact ⟨required, rfl⟩
        obtain ⟨required, asked⟩ := asked
        simp only [addition?, asked, if_pos lacks] at hfirst
        obtain ⟨kind, -, made⟩ := bind_ok hfirst
        cases made
        exact ⟨⟨e.1.name, e.2.date, required.code, kind⟩,
          List.mem_append_left _ (List.mem_singleton_self _), required, asked, rfl, rfl⟩
      · obtain ⟨addition, ha, found⟩ := ih hlater he
        exact ⟨addition, List.mem_append_right _ ha, found⟩

theorem mem_repairDays {chain : Chain} {s : Period} {day : PeriodDay} :
    (s, day) ∈ chain.repairDays ↔ s ∈ chain.periods ∧ s.category.automatic = true ∧
      (∃ d, s.day? d = some day) ∧ day.compromised = false := by
  simp only [repairDays, List.mem_flatMap, List.mem_filter, List.mem_map, Prod.mk.injEq]
  constructor
  · rintro ⟨s, ⟨hs, automatic⟩, day, ⟨hday, sound⟩, rfl, rfl⟩
    exact ⟨hs, automatic, Period.mem_values.1 hday, by simpa using sound⟩
  · rintro ⟨hs, automatic, hday, sound⟩
    exact ⟨s, ⟨hs, automatic⟩, day, ⟨Period.mem_values.2 hday, by simpa using sound⟩, rfl, rfl⟩

/-- A repair consists of the removals of the chain and the additions for its days. -/
theorem repair_ok {rules : RuleTree} {chain : Chain} {repair : Repair}
    (h : chain.repair rules = .ok repair) : additions rules chain.repairDays = .ok repair.additions ∧
      repair.removals = chain.removals ∧ repair.person = chain.person := by
  unfold Chain.repair at h
  split at h
  · cases h
  · next planned plans =>
    cases h
    exact ⟨plans, rfl, rfl⟩

/-- Where nothing is left to repair the repair is empty. -/
theorem repair_of_kept {rules : RuleTree} {chain : Chain}
    (h : ∀ s ∈ chain.periods, s.category.automatic = true → ∀ d day, s.day? d = some day →
      day.compromised = false → day.Kept) : chain.repair rules = .ok ⟨chain.person, [], []⟩ := by
  have kept : ∀ e ∈ chain.repairDays, e.2.Kept := by
    rintro ⟨s, day⟩ he
    obtain ⟨hs, automatic, ⟨d, hd⟩, sound⟩ := mem_repairDays.1 he
    exact h s hs automatic d day hd sound
  have removals : chain.removals = [] := by
    apply List.eq_nil_iff_forall_not_mem.2
    intro removal hremoval
    obtain ⟨e, he, a, wrong, -⟩ := mem_removals.1 (List.mem_map_of_mem hremoval)
    rw [(kept e he).1] at wrong
    exact absurd wrong List.not_mem_nil
  have planned (days : List (Period × PeriodDay)) (h : ∀ e ∈ days, e.2.Kept) :
      additions rules days = .ok [] := by
    induction days with
    | nil => rfl
    | cons e rest ih =>
        have own : addition? rules e.1 e.2 = .ok none := by
          unfold addition?
          split
          · rfl
          · rw [if_neg (by simp [(h e List.mem_cons_self).2])]
            rfl
        rw [additions, own, ih fun e' he => h e' (List.mem_cons_of_mem _ he)]
        rfl
  rw [repair, planned _ kept, removals]
  rfl

structure CarriedOut (chain : Chain) (planned : List Addition) (person : PersonId)
    (records records' : List Absence) : Prop where
  distinct {a b : Absence} : a ∈ records → b ∈ records → a.id = b.id → a = b
  kept {a : Absence} : a ∈ records → a.id ∉ chain.removals.map (·.absence) → a ∈ records'
  origin {a : Absence} : a ∈ records' →
    (a ∈ records ∧ a.id ∉ chain.removals.map (·.absence)) ∨
      ∃ addition ∈ planned, a.person = person ∧ a.code = addition.code ∧ a.date = addition.date
  added {addition : Addition} : addition ∈ planned →
    ∃ a ∈ records', a.person = person ∧ a.code = addition.code ∧ a.date = addition.date

section CarriedOut

variable {rules : RuleTree} {chain : Chain} {planned : List Addition} {person : PersonId}
  {records records' : List Absence}
  (separate : Separate rules (chain.periods.map (·.category)))
  (settled : ∀ s ∈ chain.periods, Settled person records s)
  (plans : additions rules chain.repairDays = .ok planned)
  (done : CarriedOut chain planned person records records')

include separate settled done in
/-- A record that stood in an automatic period is removed exactly if its own day was judged and found it
wrong. -/
theorem removed_iff {s : Period} (hs : s ∈ chain.periods) (automatic : s.category.automatic = true)
    {d : Date} {a : Absence} (ha : a ∈ replacingOn person s d records) :
    a.id ∈ chain.removals.map (·.absence) ↔ ∃ day, s.day? d = some day ∧ day.compromised = false ∧
      day.beforeInitialization = false ∧ day.isRequired a.code = false := by
  obtain ⟨mem, -, replaces, date⟩ := mem_replacingOn.1 ha
  rw [mem_removals]
  constructor
  · rintro ⟨⟨t, day⟩, hday, b, wrong, same⟩
    obtain ⟨ht, -, ⟨e, he⟩, sound⟩ := mem_repairDays.1 hday
    rw [PeriodDay.wrongReplacings] at wrong
    split at wrong
    · exact absurd wrong List.not_mem_nil
    · next late =>
      obtain ⟨stands, unrequired⟩ := List.mem_filter.1 wrong
      obtain ⟨hb, -, inT, on⟩ := mem_replacingOn.1 (((settled t ht).lists he b).1 stands)
      obtain rfl := done.distinct hb mem same
      obtain rfl := replaced_once separate ht hs (Bool.and_eq_true_iff.1 inT).2
        (Bool.and_eq_true_iff.1 replaces).2
      obtain rfl := on.trans date.symm
      exact ⟨day, he, sound, by simpa using late, by simpa using unrequired⟩
  · rintro ⟨day, hd, sound, late, unrequired⟩
    refine ⟨(s, day), mem_repairDays.2 ⟨hs, automatic, ⟨d, hd⟩, sound⟩, a, ?_, rfl⟩
    rw [PeriodDay.wrongReplacings, if_neg (by simp [late])]
    exact List.mem_filter.2 ⟨((settled s hs).lists hd a).2 ha, by simp [unrequired]⟩

include separate settled plans done in
/-- A record that stands in an automatic period afterwards stood there before and was not removed, or was
written on a day that is judged under the code it requires. -/
theorem origin_of_replacing {s : Period} (hs : s ∈ chain.periods) {d : Date} {a : Absence}
    (ha : a ∈ replacingOn person s d records') :
    (a ∈ replacingOn person s d records ∧ a.id ∉ chain.removals.map (·.absence)) ∨
      ∃ day, s.day? d = some day ∧ day.isRequired a.code = true := by
  obtain ⟨mem, own, replaces, date⟩ := mem_replacingOn.1 ha
  rcases done.origin mem with ⟨old, stays⟩ | ⟨addition, hadd, -, code, on⟩
  · exact .inl ⟨mem_replacingOn.2 ⟨old, own, replaces, date⟩, stays⟩
  · obtain ⟨⟨t, day⟩, hday, made⟩ := (mem_additions plans).1 hadd
    obtain ⟨ht, -, ⟨e, he⟩, -⟩ := mem_repairDays.1 hday
    obtain ⟨required, asked, -, dated, coded⟩ := addition?_ok made
    dsimp only at asked dated
    have inT : t.category.replaces a.code = true := by
      rw [code, coded]
      exact (settled t ht).required he asked
    obtain rfl := replaced_once separate ht hs inT (Bool.and_eq_true_iff.1 replaces).2
    have same : d = e := by rw [date, on, dated, (settled t ht).date he]
    refine .inr ⟨day, same ▸ he, ?_⟩
    simp [PeriodDay.isRequired, asked, code, coded]

include separate settled plans done in
/-- On a judged day that requires a code a record of it stands afterwards: either one stood there and stays,
or the repair has written one. -/
theorem stands_of_required {s : Period} (hs : s ∈ chain.periods) (automatic : s.category.automatic = true)
    {d : Date} {day : PeriodDay} (hd : s.day? d = some day) (late : day.beforeInitialization = false)
    (sound : day.compromised = false) {r : ReplacingCode} (hr : day.required = some r) :
    ∃ a, a ∈ replacingOn person s d records' := by
  have coded := (settled s hs).required hd hr
  have covered : s.covers d = true := DateRange.contains_iff.2 ((settled s hs).within hd)
  have stands : ∃ a ∈ records', a.person = person ∧ a.code = r.code ∧ a.date = d := by
    cases found : day.replacings.any fun a => a.code = r.code with
    | true =>
      obtain ⟨a, ha, code⟩ := List.any_eq_true.1 found
      have code : a.code = r.code := by simpa using code
      have old := ((settled s hs).lists hd a).1 ha
      obtain ⟨mem, own, -, date⟩ := mem_replacingOn.1 old
      have stays : a.id ∉ chain.removals.map (·.absence) := by
        rw [removed_iff separate settled done hs automatic old]
        rintro ⟨day', hd', -, -, wrong⟩
        obtain rfl := Option.some.inj (hd.symm.trans hd')
        simp [PeriodDay.isRequired, hr, code] at wrong
      exact ⟨a, done.kept mem stays, own, code, date.symm⟩
    | false =>
      have lacks : day.lacksReplacing = true := by
        simp only [PeriodDay.lacksReplacing, sound, late, hr, Option.any_some, found]
        rfl
      obtain ⟨addition, hadd, required, hrequired, dated, code⟩ := additions_of_lacks plans
        (mem_repairDays.2 ⟨hs, automatic, ⟨d, hd⟩, sound⟩) lacks
      obtain rfl := Option.some.inj (hr.symm.trans hrequired)
      obtain ⟨a, ha, own, acode, adate⟩ := done.added hadd
      exact ⟨a, ha, own, acode.trans code, adate.trans (dated.trans ((settled s hs).date hd))⟩
  obtain ⟨a, ha, own, code, date⟩ := stands
  have replaces : s.replaces a = true := by
    rw [Period.replaces, date, covered, code, coded, Bool.and_self]
  exact ⟨a, mem_replacingOn.2 ⟨ha, own, replaces, date.symm⟩⟩

include separate settled plans done in
/-- The records that a repair leaves suit every settled day of an automatic period. -/
theorem suits_of_carriedOut {s : Period} (hs : s ∈ chain.periods)
    (automatic : s.category.automatic = true) (d : Date) :
    s.Suits d (replacingOn person s d records') where
  absent hd := by
    apply List.eq_nil_iff_forall_not_mem.2
    intro a ha
    rcases origin_of_replacing separate settled plans done hs ha with ⟨old, -⟩ | ⟨day, found, -⟩
    · rw [(settled s hs).absent hd] at old
      exact absurd old List.not_mem_nil
    · rw [hd] at found
      cases found
  spared {day} hd spared empty := by
    apply List.eq_nil_iff_forall_not_mem.2
    intro a ha
    have old := ((settled s hs).lists hd a).1 ha
    obtain ⟨mem, own, replaces, date⟩ := mem_replacingOn.1 old
    have stays : a.id ∉ chain.removals.map (·.absence) := by
      rw [removed_iff separate settled done hs automatic old]
      rintro ⟨day', hd', sound, late, -⟩
      obtain rfl := Option.some.inj (hd.symm.trans hd')
      rcases spared with prior | compromised
      · rw [prior] at late
        cases late
      · rw [compromised] at sound
        cases sound
    have new := mem_replacingOn.2 ⟨done.kept mem stays, own, replaces, date⟩
    rw [empty] at new
    exact absurd new List.not_mem_nil
  judged {day} hd late sound := by
    refine ⟨fun a ha => ?_, fun empty => ?_⟩
    · rcases origin_of_replacing separate settled plans done hs ha with ⟨old, stays⟩ | ⟨day', found, code⟩
      · rw [removed_iff separate settled done hs automatic old] at stays
        by_contra wrong
        exact stays ⟨day, hd, sound, late, Bool.eq_false_iff.2 wrong⟩
      · obtain rfl := Option.some.inj (hd.symm.trans found)
        exact code
    · by_contra asked
      obtain ⟨r, hr⟩ := Option.ne_none_iff_exists'.1 asked
      obtain ⟨a, ha⟩ := stands_of_required separate settled plans done hs automatic hd late sound hr
      rw [empty] at ha
      exact absurd ha List.not_mem_nil

end CarriedOut

theorem links_of_places {chain chain' : Chain}
    (h : chain.periods.map Period.place = chain'.periods.map Period.place) :
    chain.links = chain'.links := by
  have := congrArg (List.map Prod.fst) h
  rwa [List.map_map, List.map_map] at this

/-- Filling the chain again after its repair was carried out on its records: it succeeds, finds the same,
renews every period and leaves nothing to repair. -/
theorem fill_repaired {rules : RuleTree} {working : WorkingTime} {pivot : Pivot} {laid chain : Chain}
    {records records' : List Absence} {planned : List Addition}
    (fresh : ∀ p ∈ laid.periods, p.days = ∅)
    (h : fill rules working pivot laid records = .ok chain) (separate : Separate rules chain.links)
    (plans : additions rules chain.repairDays = .ok planned)
    (done : CarriedOut chain planned chain.person records records')
    (same : records.filter (isPlain chain.links) = records'.filter (isPlain chain.links)) :
    ∃ chain', fill rules working pivot laid records' = .ok chain' ∧
      chain'.repair rules = .ok ⟨chain.person, [], []⟩ ∧ chain'.findings = chain.findings ∧
      List.Forall₂ (Renewed chain.person records') chain.periods chain'.periods := by
  obtain ⟨person, places, settled⟩ := fill_settled fresh h
  have links := links_of_places places
  rw [← person] at settled
  have suits (s : Period) (hs : s ∈ chain.periods) (automatic : s.category.automatic = true) (d : Date) :
      s.Suits d (replacingOn laid.person s d records') := by
    rw [← person]
    exact suits_of_carriedOut separate settled plans done hs automatic d
  obtain ⟨chain', built, own, findings, renewed⟩ :=
    fill_amended (links ▸ separate) fresh (links ▸ same) h suits
  rw [← person] at renewed
  refine ⟨chain', built, ?_, findings, renewed⟩
  rw [← own]
  apply repair_of_kept
  intro s hs automatic d day hd sound
  obtain ⟨old, -, renewed⟩ := forall₂_mem_right renewed hs
  exact renewed.kept automatic d day hd sound

end Chain

end Entitlement
