import Entitlement.Proofs.Period.Walk

/-!
Settling a period whose replacing records have been amended. Where the records that were wrong are
gone and those that were missing are there, the days that are left require what they required before,
and the residual at the end is the same.
-/

namespace Entitlement

open OrderedMap

def PeriodDay.Kept (day : PeriodDay) : Prop :=
  day.wrongReplacings = [] ∧ day.lacksReplacing = false

theorem PeriodDay.kept_of_prior {day : PeriodDay} (h : day.beforeInitialization = true)
    {records : List Absence} : (day.withReplacings records).Kept := by
  have prior : (day.withReplacings records).beforeInitialization = true := h
  refine ⟨?_, ?_⟩
  · rw [wrongReplacings, if_pos prior]
  · rw [lacksReplacing, prior, Bool.not_true, Bool.and_false, Bool.false_and]

section Required

variable {day : PeriodDay} {records : List Absence}
  (required : ∀ a ∈ records, day.isRequired a.code = true) (none : records = [] → day.required = none)

include required none

/-- Records of the required code, at least one if a code is required, leave nothing to repair. -/
theorem PeriodDay.kept_of_required : (day.withReplacings records).Kept := by
  refine ⟨?_, ?_⟩
  · rw [wrongReplacings]
    split
    · rfl
    · apply List.filter_eq_nil_iff.2
      intro a ha
      have : (day.withReplacings records).isRequired a.code = true := required a ha
      rw [this]
      exact Bool.false_ne_true
  · have answered : (day.required.any fun r => !records.any fun a => a.code = r.code) = false := by
      cases asked : day.required with
      | none => rfl
      | some r =>
        obtain ⟨a, ha⟩ := List.exists_mem_of_ne_nil _ (mt none (by simp [asked]))
        have code : r.code = a.code := by simpa [isRequired, asked] using required a ha
        have found : (records.any fun a => a.code = r.code) = true :=
          List.any_eq_true.2 ⟨a, ha, by simp [code]⟩
        rw [Option.any_some, found, Bool.not_true]
    rw [lacksReplacing]
    exact (congrArg (_ && ·) answered).trans (Bool.and_false _)

theorem PeriodDay.required_isSome_iff : day.required.isSome = true ↔ records ≠ [] := by
  constructor
  · intro asked empty
    rw [none empty] at asked
    cases asked
  · intro stands
    obtain ⟨a, ha⟩ := List.exists_mem_of_ne_nil _ stands
    have := required a ha
    cases asked : day.required with
    | none => simp [isRequired, asked] at this
    | some r => rfl

end Required

namespace Period

theorem settle_of_none {p : Period} (h : p.category.completion = none) : p.settle = p := by
  unfold settle
  rw [h]

theorem settle_days {p : Period} {completion : Completion} (h : p.category.completion = some completion) :
    p.settle.days.toList = (scanList (p.settleDay completion) p.initialResidual p.days.toList).2 := by
  unfold settle
  rw [h]
  rfl

theorem day?_eq_some {p : Period} {d : Date} {day : PeriodDay} :
    p.day? d = some day ↔ (d, day) ∈ p.days.toList :=
  get?_eq_some_iff

/-- A settled day is what the walk makes of the day at its date. -/
theorem settle_day? {p : Period} {completion : Completion} (asks : p.category.completion = some completion)
    {d : Date} {day : PeriodDay} (hd : p.settle.day? d = some day) :
    ∃ residual before, p.day? d = some before ∧ day = (p.settleDay completion residual d before).2 := by
  rw [day?_eq_some, settle_days asks] at hd
  obtain ⟨residual, before, mem, image⟩ := mem_scanList hd
  exact ⟨residual, before, day?_eq_some.2 mem, image⟩

theorem day?_eq_none {p : Period} {d : Date} : p.day? d = none ↔ d ∉ p.days.toList.map (·.1) := by
  simp only [day?, get?_eq_none_iff, List.mem_map, not_exists, not_and, Prod.forall]
  constructor
  · rintro h _ day mem rfl
    exact h day mem
  · exact fun h day mem => h d day mem rfl

theorem mem_values {p : Period} {day : PeriodDay} :
    day ∈ p.days.values ↔ ∃ d, p.day? d = some day := by
  simp only [OrderedMap.values, List.mem_map, Prod.exists, day?_eq_some, exists_eq_right]

theorem settle_keys (p : Period) : p.settle.days.toList.map (·.1) = p.days.toList.map (·.1) := by
  cases h : p.category.completion with
  | none => rw [settle_of_none h]
  | some completion => rw [settle_days h, scanList_keys]

/-- Settling neither adds nor drops a day. -/
theorem settle_day?_eq_none {p : Period} {d : Date} : p.settle.day? d = none ↔ p.day? d = none := by
  rw [day?_eq_none, day?_eq_none, settle_keys]

theorem settle_compromisedFrom (p : Period) : p.settle.compromisedFrom = p.compromisedFrom := by
  unfold settle
  split <;> rfl

theorem settle_findings (p : Period) : p.settle.findings = p.findings := by
  unfold settle
  split <;> rfl

theorem isPrior_settle (p : Period) : p.settle.isPrior = p.isPrior :=
  funext (isPrior_of_terms (terms_settle p))

theorem isCompromisedOn_settle (p : Period) : p.settle.isCompromisedOn = p.isCompromisedOn := by
  funext d
  rw [isCompromisedOn, isCompromisedOn, settle_compromisedFrom]

/-- A settled day: the records brought in, the mark of a compromised date, and a requirement only on a
date that is judged. -/
structure SettledDay (p : Period) (d : Date) (day : PeriodDay) : Prop where
  same : SameRecords day (p.dayAt d)
  compromised : day.compromised = (!p.isPrior d && p.isCompromisedOn d)
  required {r : ReplacingCode} : day.required = some r →
    p.category.replaces r.code = true ∧ p.isPrior d = false ∧ p.isCompromisedOn d = false

theorem settle_day {p : Period} (tidy : p.Tidy) {completion : Completion}
    (asks : p.category.completion = some completion) {d : Date} {day : PeriodDay}
    (hd : p.settle.day? d = some day) : SettledDay p d day := by
  obtain ⟨residual, before, held, image⟩ := settle_day? asks hd
  have stands := dayAt_of_day? held
  have bare := tidy.bare d
  rw [stands] at bare
  have prior : before.beforeInitialization = p.isPrior d := by rw [bare]; rfl
  have whole : before.compromised = false := by rw [bare]; rfl
  have none : before.required = none := by rw [bare]; rfl
  refine ⟨?_, ?_, fun {r} hr => ?_⟩
  · rw [image, stands]
    exact p.settleDay_same completion residual d before
  · rw [image]
    rcases p.settleDay_cases completion residual d before with
      ⟨early, h⟩ | ⟨late, compromised, h⟩ | ⟨late, sound, _, -, h⟩
    · rw [h, whole, ← prior, early]
      rfl
    · rw [h, ← prior, late, compromised]
      rfl
    · rw [h, ← prior, late, sound, whole]
      rfl
  · rw [image] at hr
    rcases p.settleDay_cases completion residual d before with
      ⟨-, h⟩ | ⟨-, -, h⟩ | ⟨late, sound, _, -, h⟩
    · rw [h, none] at hr
      cases hr
    · rw [h] at hr
      cases hr
    · rw [h] at hr
      refine ⟨?_, prior ▸ late, sound⟩
      simp only [Category.replaces, asks, Option.any_some]
      exact Completion.replaces_of_largestFitting hr

/-- A settled day holds the records brought in, whether or not the period asks for completions. -/
theorem settle_same {p : Period} (tidy : p.Tidy) {d : Date} {day : PeriodDay}
    (hd : p.settle.day? d = some day) : SameRecords day (p.dayAt d) := by
  cases asks : p.category.completion with
  | none =>
    rw [settle_of_none asks] at hd
    rw [dayAt_of_day? hd]
    exact ⟨rfl, rfl, rfl, rfl, rfl⟩
  | some completion => exact (settle_day tidy asks hd).same

theorem Tidy.charges_settle {p : Period} (tidy : p.Tidy) (d : Date) :
    (p.settle.dayAt d).charges = (p.dayAt d).charges := by
  cases found : p.settle.day? d with
  | none =>
    rw [dayAt_of_none found, dayAt_of_none (settle_day?_eq_none.1 found)]
    rfl
  | some day =>
    rw [dayAt_of_day? found]
    exact (settle_same tidy found).charges

/-- Replacing records that suit a settled day: none without a day, some left where a date is not judged
and some stood, and elsewhere records of the required code, at least one if a code is required. -/
structure Suits (p : Period) (d : Date) (records : List Absence) : Prop where
  absent : p.day? d = none → records = []
  spared {day : PeriodDay} : p.day? d = some day →
    day.beforeInitialization = true ∨ day.compromised = true → records = [] → day.replacings = []
  judged {day : PeriodDay} : p.day? d = some day → day.beforeInitialization = false →
    day.compromised = false →
      (∀ a ∈ records, day.isRequired a.code = true) ∧ (records = [] → day.required = none)

/-- Tidy periods of one outline differ in the replacing records of their dates only. -/
theorem dayAt_withReplacings {p q : Period} (hp : p.Tidy) (hq : q.Tidy) (same : p.outline = q.outline)
    (d : Date) : q.dayAt d = (p.dayAt d).withReplacings (q.dayAt d).replacings := by
  obtain ⟨terms, -, -, -, charges, completions⟩ := outline_eq_iff.1 same
  rw [hq.bare d, hp.bare d, ← isPrior_of_terms terms, ← charges, ← completions]
  rfl

/-- The days of a period whose replacing records were amended: some are gone, on the others the records
are exchanged. -/
theorem amended_days {p q : Period} (hp : p.Tidy) (hq : q.Tidy) (same : p.outline = q.outline)
    (suits : ∀ d, p.settle.Suits d (q.dayAt d).replacings) :
    q.days.toList = (p.days.toList.filter fun e => (q.day? e.1).isSome).map
      fun e => (e.1, e.2.withReplacings (q.dayAt e.1).replacings) := by
  have exchanged := dayAt_withReplacings hp hq same
  have stands {d : Date} {day : PeriodDay} (hd : q.day? d = some day) : ∃ old, p.day? d = some old := by
    refine Option.ne_none_iff_exists'.1 fun missing => hq.used hd ?_
    have blank := dayAt_of_none missing
    rw [← dayAt_of_day? hd]
    refine ⟨?_, ?_, (suits d).absent (settle_day?_eq_none.2 missing)⟩
    · rw [exchanged, blank]
      rfl
    · rw [exchanged, blank]
      rfl
  refine Ordered.list_eq_of_mem_iff (r := fun a b => Ordered.before a.1 b.1)
    (fun hab => by simp [Ordered.asymm hab]) q.days.ascending
    (List.pairwise_map.2 (p.days.ascending.filter _)) ?_
  rintro ⟨d, day⟩
  simp only [List.mem_map, List.mem_filter, Prod.exists, Prod.mk.injEq]
  constructor
  · intro mem
    have hd := day?_eq_some.2 mem
    obtain ⟨old, hold⟩ := stands hd
    refine ⟨d, old, ⟨day?_eq_some.1 hold, by rw [hd]; rfl⟩, rfl, ?_⟩
    rw [← dayAt_of_day? hold, ← exchanged, dayAt_of_day? hd]
  · rintro ⟨_, old, ⟨mem, kept⟩, rfl, rfl⟩
    obtain ⟨day, hd⟩ := Option.isSome_iff_exists.1 kept
    rw [← dayAt_of_day? (day?_eq_some.2 mem), ← exchanged, dayAt_of_day? hd]
    exact day?_eq_some.1 hd

theorem settleDay_congr {p q : Period} (h : p.compromisedFrom = q.compromisedFrom)
    (completion : Completion) : p.settleDay completion = q.settleDay completion := by
  funext residual d day
  have marked : p.isCompromisedOn d = q.isCompromisedOn d := by
    rw [isCompromisedOn, isCompromisedOn, h]
  rw [settleDay, settleDay, marked]

theorem initialResidual_of_terms {p q : Period} (h : p.terms = q.terms) :
    p.initialResidual = q.initialResidual := by
  rw [initialResidual, initialResidual, initialization_of_terms h]

/-- The final residual is the one with which the walk ends. -/
theorem finalResidual_settle {p : Period} (tidy : p.Tidy) {completion : Completion}
    (asks : p.category.completion = some completion) : p.settle.finalResidual =
      some (scanList (p.settleDay completion) p.initialResidual p.days.toList).1 := by
  have sound : ∀ e ∈ p.days.toList, e.2.compromised = false := by
    intro e he
    have stands := dayAt_of_day? (day?_eq_some.2 he)
    rw [← stands, tidy.bare]
    rfl
  have category : p.settle.category = p.category := (terms_eq_iff.1 (terms_settle p)).1
  rw [← walk_end p completion p.days.toList sound, finalResidual, category, asks, Option.map_some,
    initialResidual_of_terms (terms_settle p), values, settle_days asks]
  rfl

/-- Settling amended days: those that are left require what they required before, and the residual ends
the same. -/
theorem settle_amended {p q : Period} (hp : p.Tidy) (hq : q.Tidy) (same : p.outline = q.outline)
    {completion : Completion} (asks : p.category.completion = some completion)
    (suits : ∀ d, p.settle.Suits d (q.dayAt d).replacings) :
    q.settle.days.toList = ((p.settle.days.toList.filter fun e => (q.day? e.1).isSome).map
        fun e => (e.1, e.2.withReplacings (q.dayAt e.1).replacings)) ∧
      q.settle.finalResidual = p.settle.finalResidual := by
  obtain ⟨terms, -, compromised, -, charges, completions⟩ := outline_eq_iff.1 same
  have asks' : q.category.completion = some completion := (terms_eq_iff.1 terms).1 ▸ asks
  -- A day that has gone was neither prior nor compromised, so it was judged and required nothing.
  have idle : ∀ e ∈ (scanList (p.settleDay completion) p.initialResidual p.days.toList).2,
      (q.day? e.1).isSome = false → e.2.completions = [] ∧ e.2.required = none := by
    rintro ⟨d, day⟩ mem gone
    rw [← settle_days asks, ← day?_eq_some] at mem
    have settled := settle_day hp asks mem
    have missing := dayAt_of_none (Option.isNone_iff_eq_none.1 (by simpa using gone))
    have none : (q.dayAt d).replacings = [] := by rw [missing]; rfl
    have uncompleted : day.completions = [] := by
      rw [settled.same.completions, completions, missing]
      rfl
    have uncharged : day.charges = [] := by
      rw [settled.same.charges, charges, missing]
      rfl
    refine ⟨uncompleted, ?_⟩
    have used : day.replacings ≠ [] := by
      intro empty
      obtain ⟨old, hold⟩ := Option.ne_none_iff_exists'.1
        (mt settle_day?_eq_none.2 (by rw [mem]; exact Option.some_ne_none _))
      have stands := dayAt_of_day? hold
      refine hp.used hold ⟨?_, ?_, ?_⟩
      · rw [← stands, ← settled.same.charges, uncharged]
      · rw [← stands, ← settled.same.completions, uncompleted]
      · rw [← stands, ← settled.same.replacings, empty]
    have judged : day.beforeInitialization = false ∧ day.compromised = false := by
      have := mt ((suits d).spared mem · none) (by simpa using used)
      simpa [not_or] using this
    exact ((suits d).judged mem judged.1 judged.2).2 none
  have walk := walk_filter p completion (fun d => (q.day? d).isSome) p.days.toList p.initialResidual
    idle
  have exchanged := walk_withReplacings p completion (fun d => (q.dayAt d).replacings)
    (p.days.toList.filter fun e => (q.day? e.1).isSome) p.initialResidual
  rw [walk] at exchanged
  dsimp only at exchanged
  have list := amended_days hp hq same suits
  constructor
  · rw [settle_days asks', settle_days asks, ← settleDay_congr compromised,
      ← initialResidual_of_terms terms, list, exchanged]
  · rw [finalResidual_settle hq asks', finalResidual_settle hp asks, ← settleDay_congr compromised,
      ← initialResidual_of_terms terms, list, exchanged]

/-- Tidy periods of one outline with the same replacing records on every date are the same. -/
theorem eq_of_outline {p q : Period} (hp : p.Tidy) (hq : q.Tidy) (same : p.outline = q.outline)
    (replacings : ∀ d, (p.dayAt d).replacings = (q.dayAt d).replacings) : p = q := by
  obtain ⟨terms, taken, compromised, findings, -⟩ := outline_eq_iff.1 same
  have days : p.days = q.days := by
    apply OrderedMap.ext
    intro d
    have exchanged : q.dayAt d = p.dayAt d := by
      rw [dayAt_withReplacings hp hq same d, ← replacings d]
      rfl
    show p.day? d = q.day? d
    rw [hp.day?_eq, hq.day?_eq, exchanged]
  obtain ⟨category, range, limit, initialization⟩ := terms_eq_iff.1 terms
  cases p
  cases q
  simp_all

/-- A day that is left by an amendment is one of the settled days with its records exchanged. -/
theorem exchanged_day {p q : Period} (hp : p.Tidy) (hq : q.Tidy) (same : p.outline = q.outline)
    {completion : Completion} (asks : p.category.completion = some completion)
    (suits : ∀ d, p.settle.Suits d (q.dayAt d).replacings) {d : Date} {day : PeriodDay}
    (hd : q.settle.day? d = some day) :
    ∃ old, p.settle.day? d = some old ∧ day = old.withReplacings (q.dayAt d).replacings := by
  obtain ⟨list, -⟩ := settle_amended hp hq same asks suits
  rw [day?_eq_some, list] at hd
  obtain ⟨⟨e, old⟩, mem, exchanged⟩ := List.mem_map.1 hd
  obtain ⟨rfl, rfl⟩ := Prod.mk.inj exchanged
  exact ⟨old, day?_eq_some.2 (List.mem_filter.1 mem).1, rfl⟩

/-- Where the amended records suit a settled day, nothing on it is left to repair. -/
theorem kept_of_suits {p q : Period} (hp : p.Tidy) (hq : q.Tidy) (same : p.outline = q.outline)
    {completion : Completion} (asks : p.category.completion = some completion)
    (suits : ∀ d, p.settle.Suits d (q.dayAt d).replacings) {d : Date} {day : PeriodDay}
    (hd : q.settle.day? d = some day) (sound : day.compromised = false) : day.Kept := by
  obtain ⟨old, hold, rfl⟩ := exchanged_day hp hq same asks suits hd
  cases prior : old.beforeInitialization with
  | true => exact PeriodDay.kept_of_prior prior
  | false =>
    obtain ⟨required, missing⟩ := (suits d).judged hold prior sound
    exact PeriodDay.kept_of_required required missing

/-- On a date that is judged the amended records have the required code, and there are some exactly if a
code is required. -/
theorem required_of_suits {p q : Period} (hp : p.Tidy) (hq : q.Tidy) (same : p.outline = q.outline)
    {completion : Completion} (asks : p.category.completion = some completion)
    (suits : ∀ d, p.settle.Suits d (q.dayAt d).replacings) {d : Date} (late : q.isPrior d = false)
    (sound : q.isCompromisedOn d = false) :
    (∀ a ∈ (q.dayAt d).replacings, (q.settle.dayAt d).isRequired a.code = true) ∧
      ((q.settle.dayAt d).required.isSome = true ↔ (q.dayAt d).replacings ≠ []) := by
  have asks' : q.category.completion = some completion :=
    (terms_eq_iff.1 (outline_eq_iff.1 same).1).1 ▸ asks
  cases hd : q.settle.day? d with
  | none =>
    have missing := dayAt_of_none (settle_day?_eq_none.1 hd)
    rw [missing, dayAt_of_none hd]
    exact ⟨fun a ha => absurd ha List.not_mem_nil, by simp [PeriodDay.blank]⟩
  | some day =>
    have settled := settle_day hq asks' hd
    obtain ⟨old, hold, exchanged⟩ := exchanged_day hp hq same asks suits hd
    rw [exchanged] at settled
    have prior : old.beforeInitialization = false := by
      have := settled.same.beforeInitialization
      rw [hq.bare d] at this
      exact this.trans late
    have whole : old.compromised = false := by
      have := settled.compromised
      rw [late, sound] at this
      exact this
    obtain ⟨required, none⟩ := (suits d).judged hold prior whole
    rw [dayAt_of_day? hd, exchanged]
    exact ⟨required, PeriodDay.required_isSome_iff required none⟩

end Period

end Entitlement
