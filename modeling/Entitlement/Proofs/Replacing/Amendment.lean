import Entitlement.Proofs.Chain.Bringing
import Entitlement.Proofs.Chain.Gathering
import Entitlement.Proofs.Period.Settling

/-!
Filling a chain after its replacing records were amended. In a chain whose replacing codes are kept
apart from all its other codes, records of the replacing codes of automatic categories show in the
replacing records of one period and nowhere else. Exchanging them for records that suit the settled
days gives a chain with the same totals, findings and residuals, in which nothing is left to repair.
-/

namespace Entitlement

/-- The categories of a chain keep their replacing codes apart: no code replaces in two of them, and
none that replaces is taken or completes in the chain, or is taken by the source of a carry-over. -/
structure Separate (rules : RuleTree) (links : List Category) : Prop where
  once : links.Pairwise fun c c' =>
    ∀ code, c.replaces code = true → c'.replaces code = false
  apart {c : Category} {code : Code} : c ∈ links → c.replaces code = true →
    ∀ c' ∈ links, c'.takes code = false ∧ c'.completes code = false
  uncarried {c : Category} {code : Code} : c ∈ links → c.replaces code = true → ∀ c' ∈ links,
    ∀ source month origin, c'.period = .previousYear source month →
      rules.category? source = some origin → origin.takes code = false

namespace Chain

def links (chain : Chain) : List Category :=
  chain.periods.map (·.category)

def isPlain (links : List Category) (record : Absence) : Bool :=
  !links.any fun c => c.automatic && c.replaces record.code

theorem isPlain_eq_false {links : List Category} {record : Absence} :
    isPlain links record = false ↔
      ∃ c ∈ links, c.automatic = true ∧ c.replaces record.code = true := by
  simp [isPlain]

def replacingOn (person : PersonId) (p : Period) (d : Date) (records : List Absence) : List Absence :=
  records.filter fun a => a.person = person && (p.replaces a && d = a.date)

theorem mem_replacingOn {person : PersonId} {p : Period} {d : Date} {records : List Absence}
    {a : Absence} : a ∈ replacingOn person p d records ↔
      a ∈ records ∧ a.person = person ∧ p.replaces a = true ∧ d = a.date := by
  simp [replacingOn]

private theorem countP_le_one {α : Type} {f : α → Bool} {l : List α}
    (h : l.Pairwise fun a b => f a = true → f b = false) : l.countP f ≤ 1 := by
  induction l with
  | nil => simp
  | cons a rest ih =>
      obtain ⟨first, later⟩ := List.pairwise_cons.1 h
      by_cases ha : f a = true
      · have none : rest.countP f = 0 :=
          List.countP_eq_zero.2 fun b hb => Bool.eq_false_iff.1 (first b hb ha)
        rw [List.countP_cons_of_pos ha]
        omega
      · rw [List.countP_cons_of_neg ha]
        exact ih later

section Separate

variable {rules : RuleTree} {periods : List Period}
  (separate : Separate rules (periods.map (·.category)))

include separate

/-- Only one period of a separate chain is replaced in under a code. -/
theorem replaced_once {p q : Period} (hp : p ∈ periods) (hq : q ∈ periods) {code : Code}
    (inP : p.category.replaces code = true) (inQ : q.category.replaces code = true) : p = q := by
  have apart := List.pairwise_map.1 separate.once
  refine List.Pairwise.forall_of_forall_of_flip (R := fun p q : Period =>
    p.category.replaces code = true → q.category.replaces code = true → p = q)
    (fun _ _ _ _ => rfl) (apart.imp fun {p q} apart inP inQ => ?_)
    (apart.imp fun {p q} apart inQ inP => ?_) hp hq inP inQ
  · simp [apart code inP] at inQ
  · simp [apart code inP] at inQ

/-- A record that replaces in an automatic category is neither taken nor completes anywhere. -/
theorem apart_of_not_plain {a : Absence} (h : isPlain (periods.map (·.category)) a = false)
    {p : Period} (hp : p ∈ periods) : p.takes a = false ∧ p.completes a = false := by
  obtain ⟨c, hc, -, replaces⟩ := isPlain_eq_false.1 h
  obtain ⟨takes, completes⟩ := separate.apart hc replaces p.category (List.mem_map_of_mem hp)
  exact ⟨by simp [Period.takes, takes], by simp [Period.completes, completes]⟩

/-- Such a record clashes with nothing. -/
theorem not_clashes_of_not_plain {a : Absence} (h : isPlain (periods.map (·.category)) a = false) :
    clashes periods a = false := by
  have completing : periods.countP (fun p => p.completes a) = 0 :=
    List.countP_eq_zero.2 fun p hp =>
      Bool.eq_false_iff.1 (apart_of_not_plain separate h hp).2
  have replacing : periods.countP (fun p => p.replaces a) ≤ 1 := by
    refine countP_le_one ((List.pairwise_map.1 separate.once).imp fun apart replaces => ?_)
    rw [Period.replaces, Bool.and_eq_true] at replaces
    simp [Period.replaces, apart a.code replaces.2]
  rw [Bool.eq_false_iff]
  intro clash
  have := clashes_iff.1 clash
  omega

/-- What is carried over does not depend on such records. -/
theorem seedPeriod_plain (working : WorkingTime) (pivot : Pivot) {records records' : List Absence}
    (same : records.filter (isPlain (periods.map (·.category))) =
      records'.filter (isPlain (periods.map (·.category))))
    {p : Period} (hp : p ∈ periods) :
    seedPeriod rules working pivot records p = seedPeriod rules working pivot records' p := by
  apply seedPeriod_congr
  intro link found
  refine link.history_congr_filter (fun a h => ?_) pivot.person pivot.date.year same
  obtain ⟨c, hc, -, replaces⟩ := isPlain_eq_false.1 h
  obtain ⟨source, month, period, known⟩ := carryOver_eq_some found
  exact separate.uncarried hc replaces p.category (List.mem_map_of_mem hp) source month _ period known

end Separate

theorem replacingOn_congr {p q : Period} (h : p.place = q.place) (person : PersonId) (d : Date)
    (records : List Absence) : replacingOn person p d records = replacingOn person q d records := by
  unfold replacingOn
  apply List.filter_congr
  intro a _
  rw [Period.replaces_congr h a]

/-- The records gathered for a chain that replace in one of its periods on a date. -/
theorem concerned_replacing {periods : List Period} {b : Period}
    (h : b.place ∈ periods.map Period.place) (person : PersonId) (d : Date) (records : List Absence) :
    ((concerned periods person records).filter fun a => b.replaces a && d = a.date) =
      Absence.inOrder (replacingOn person b d records) := by
  obtain ⟨p, hp, same⟩ := List.mem_map.1 h
  rw [concerned, Absence.inOrder_filter, List.filter_filter, replacingOn]
  congr 1
  apply List.filter_congr
  intro a _
  rw [Bool.eq_iff_iff]
  simp only [Bool.and_eq_true, decide_eq_true_eq, List.any_eq_true]
  constructor
  · rintro ⟨⟨replaces, date⟩, own, -⟩
    exact ⟨own, replaces, date⟩
  · rintro ⟨own, replaces, date⟩
    refine ⟨⟨replaces, date⟩, own, p, hp, ?_⟩
    rw [← Period.replaces_congr same] at replaces
    simp [Period.concerns, replaces]

theorem concerned_plain (periods : List Period) (person : PersonId) (keep : Absence → Bool)
    (records : List Absence) : (concerned periods person records).filter keep =
      concerned periods person (records.filter keep) := by
  rw [concerned, Absence.inOrder_filter, List.filter_filter, concerned, List.filter_filter]
  congr 1
  exact List.filter_congr fun a _ => Bool.and_comm _ _

/-- A period renewed by an amendment: it has the standing of the old one, and if it is automatic, its
days leave nothing to repair and the person's records replace on each date that is judged what is
required there. -/
structure Renewed (person : PersonId) (records : List Absence) (old new : Period) : Prop where
  terms : new.terms = old.terms
  taken : new.taken = old.taken
  compromisedFrom : new.compromisedFrom = old.compromisedFrom
  findings : new.findings = old.findings
  finalResidual : new.finalResidual = old.finalResidual
  kept : new.category.automatic = true → ∀ d day, new.day? d = some day →
    day.compromised = false → day.Kept
  required : new.category.automatic = true → ∀ d, new.isPrior d = false →
    new.isCompromisedOn d = false →
      (∀ a ∈ replacingOn person new d records, (new.dayAt d).isRequired a.code = true) ∧
        ((new.dayAt d).required.isSome = true ↔ replacingOn person new d records ≠ [])

theorem suits_congr {s : Period} {d : Date} {l m : List Absence} (h : ∀ a, a ∈ l ↔ a ∈ m)
    (suits : s.Suits d l) : s.Suits d m := by
  have empty : m = [] ↔ l = [] := by
    simp only [List.eq_nil_iff_forall_not_mem, h]
  refine ⟨fun hd => empty.2 (suits.absent hd), fun hd spared he => suits.spared hd spared (empty.1 he),
    fun hd late sound => ?_⟩
  obtain ⟨required, none⟩ := suits.judged hd late sound
  exact ⟨fun a ha => required a ((h a).2 ha), fun he => none (empty.1 he)⟩

/-- The outline and the compromise of a settled period are those it had before. -/
theorem renewed_of_outline {person : PersonId} {records : List Absence} {p q : Period}
    (same : p.outline = q.outline) (finalResidual : q.settle.finalResidual = p.settle.finalResidual)
    (kept : q.category.automatic = true → ∀ d day, q.settle.day? d = some day →
      day.compromised = false → day.Kept)
    (required : q.category.automatic = true → ∀ d, q.isPrior d = false → q.isCompromisedOn d = false →
      (∀ a ∈ replacingOn person q d records, (q.settle.dayAt d).isRequired a.code = true) ∧
        ((q.settle.dayAt d).required.isSome = true ↔ replacingOn person q d records ≠ [])) :
    Renewed person records p.settle q.settle := by
  obtain ⟨terms, taken, compromised, findings, -⟩ := Period.outline_eq_iff.1 same
  have settled := Period.terms_settle q
  have category : q.settle.category = q.category := (Period.terms_eq_iff.1 settled).1
  refine ⟨?_, ?_, ?_, ?_, finalResidual, ?_, ?_⟩
  · rw [settled, Period.terms_settle, terms]
  · rw [Period.taken_settle, Period.taken_settle, taken]
  · rw [Period.settle_compromisedFrom, Period.settle_compromisedFrom, compromised]
  · rw [Period.settle_findings, Period.settle_findings, findings]
  · rw [category]
    exact kept
  · intro automatic d late sound
    rw [category] at automatic
    rw [Period.isPrior_of_terms settled] at late
    rw [Period.isCompromisedOn, Period.settle_compromisedFrom] at sound
    rw [replacingOn_congr (Period.place_of_terms settled)]
    exact required automatic d late sound

def Lists (person : PersonId) (records : List Absence) (p : Period) : Prop :=
  ∀ d, (p.dayAt d).replacings = Absence.inOrder (replacingOn person p d records)

theorem replacingOn_of_not_replaces {person : PersonId} {p : Period} {d : Date}
    {records : List Absence} (h : ∀ a ∈ records, a.person = person → p.replaces a = false) :
    replacingOn person p d records = [] := by
  apply List.filter_eq_nil_iff.2
  intro a ha
  by_cases own : a.person = person
  · simp [h a ha own]
  · simp [own]

/-- A period without completions lists no replacing records, so an amendment leaves it as it is. -/
theorem renewed_uncompleted {person : PersonId} {records records' : List Absence} {p q : Period}
    (hp : p.Tidy) (hq : q.Tidy) (same : p.outline = q.outline) (listsP : Lists person records p)
    (listsQ : Lists person records' q) (none : p.category.completion = none) :
    Renewed person records' p.settle q.settle := by
  have category : q.category = p.category :=
    (Period.terms_eq_iff.1 (Period.outline_eq_iff.1 same).1).1.symm
  have none' : q.category.completion = Option.none := category ▸ none
  have emptyP (d : Date) : replacingOn person p d records = [] :=
    replacingOn_of_not_replaces fun a _ _ => by simp [Period.replaces, Category.replaces, none]
  have emptyQ (d : Date) : replacingOn person q d records' = [] :=
    replacingOn_of_not_replaces fun a _ _ => by simp [Period.replaces, Category.replaces, none']
  have eq : p = q := Period.eq_of_outline hp hq same fun d => by
    rw [listsP, listsQ, emptyP, emptyQ]
  refine renewed_of_outline same (by rw [eq]) (fun _ d day hd _ => ?_) (fun _ d _ _ => ?_)
  · rw [Period.settle_of_none none'] at hd
    have stands := Period.dayAt_of_day? hd
    have replacings : day.replacings = [] := by rw [← stands, listsQ, emptyQ, Absence.inOrder_nil]
    have required : day.required = Option.none := by rw [← stands, hq.bare]; rfl
    refine PeriodDay.kept_of_required ?_ fun _ => required
    rw [replacings]
    exact fun a ha => absurd ha List.not_mem_nil
  · rw [emptyQ, Period.settle_of_none none', hq.bare]
    exact ⟨fun a ha => absurd ha List.not_mem_nil, by simp [PeriodDay.blank]⟩

/-- An automatic period is renewed when its amended records suit its settled days. -/
theorem renewed_automatic {person : PersonId} {records records' : List Absence} {p q : Period}
    (hp : p.Tidy) (hq : q.Tidy) (same : p.outline = q.outline) (listsP : Lists person records p)
    (listsQ : Lists person records' q)
    (suits : ∀ d, p.settle.Suits d (replacingOn person p.settle d records')) :
    Renewed person records' p.settle q.settle := by
  cases asks : p.category.completion with
  | none => exact renewed_uncompleted hp hq same listsP listsQ asks
  | some completion =>
    have place : q.place = p.settle.place := Period.place_of_terms
      ((Period.outline_eq_iff.1 same).1.symm.trans (Period.terms_settle p).symm)
    have suited (d : Date) : p.settle.Suits d (q.dayAt d).replacings := by
      rw [listsQ, replacingOn_congr place]
      exact suits_congr (fun a => Absence.mem_inOrder.symm) (suits d)
    refine renewed_of_outline same (Period.settle_amended hp hq same asks suited).2
      (fun _ d day hd sound => Period.kept_of_suits hp hq same asks suited hd sound)
      (fun _ d late sound => ?_)
    have required := Period.required_of_suits hp hq same asks suited late sound
    rw [listsQ] at required
    refine ⟨fun a ha => required.1 a (Absence.mem_inOrder.2 ha), required.2.trans ?_⟩
    simp only [ne_eq, List.eq_nil_iff_forall_not_mem, Absence.mem_inOrder]

/-- A period that is not automatic is renewed when it lists the same records as before. -/
theorem renewed_manual {person : PersonId} {records records' : List Absence} {p q : Period}
    (hp : p.Tidy) (hq : q.Tidy) (same : p.outline = q.outline) (listsP : Lists person records p)
    (listsQ : Lists person records' q) (manual : p.category.automatic = false)
    (unchanged : ∀ d, replacingOn person p d records = replacingOn person p d records') :
    Renewed person records' p.settle q.settle := by
  have terms := (Period.outline_eq_iff.1 same).1
  have eq : p = q := Period.eq_of_outline hp hq same fun d => by
    rw [listsP, listsQ, unchanged, replacingOn_congr (Period.place_of_terms terms)]
  have manual' : q.category.automatic = false := (Period.terms_eq_iff.1 terms).1 ▸ manual
  refine renewed_of_outline same (by rw [eq]) (fun automatic => ?_) (fun automatic => ?_)
  · rw [manual'] at automatic
    cases automatic
  · rw [manual'] at automatic
    cases automatic

/-- Lists related to one list in two ways, with a function that agrees on them. -/
private theorem forall₂_join {α β γ : Type} {R S : α → β → Prop} {f : β → γ} {l : List α}
    {m n : List β} (first : List.Forall₂ R l m) (second : List.Forall₂ S l n)
    (same : m.map f = n.map f) :
    List.Forall₂ (fun b c => b ∈ m ∧ ∃ a ∈ l, R a b ∧ S a c ∧ f b = f c) m n := by
  induction first generalizing n with
  | nil =>
      cases second
      exact .nil
  | @cons a b l m hab _ ih =>
      cases second with
      | @cons _ c _ n hac rest =>
        obtain ⟨head, tail⟩ := List.cons.inj same
        refine .cons ⟨List.mem_cons_self, a, List.mem_cons_self, hab, hac, head⟩
          ((ih rest tail).imp ?_)
        rintro _ _ ⟨hb, a, ha, related⟩
        exact ⟨List.mem_cons_of_mem _ hb, a, List.mem_cons_of_mem _ ha, related⟩

theorem lists_of_brought {periods : List Period} {person : PersonId} {records : List Absence}
    {b p : Period} (fresh : b.days = ∅) (place : b.place ∈ periods.map Period.place)
    (brought : BroughtAll (concerned periods person records) b p) : Lists person records p := by
  intro d
  have blank : (b.dayAt d).replacings = [] := by
    rw [Period.dayAt_of_none (by simp [Period.day?, fresh])]
    rfl
  rw [brought.replacings, blank, List.nil_append, concerned_replacing place,
    replacingOn_congr (Period.place_of_terms brought.terms)]

structure Amended (periods brought : List Period) (person : PersonId) (records records' : List Absence)
    (p q : Period) : Prop where
  mem : p ∈ brought
  place : p.place ∈ periods.map Period.place
  tidy : p.Tidy
  tidy' : q.Tidy
  same : p.outline = q.outline
  lists : Lists person records p
  lists' : Lists person records' q

/-- Records that agree on what is plain bring the periods up to one outline. -/
theorem bringAll_amended {rules : RuleTree} {periods seeded : List Period}
    (separate : Separate rules (periods.map (·.category)))
    (places : seeded.map Period.place = periods.map Period.place) (fresh : ∀ p ∈ seeded, p.days = ∅)
    (working : Date → Option Amount) (person : PersonId) {records records' : List Absence}
    (same : records.filter (isPlain (periods.map (·.category))) =
      records'.filter (isPlain (periods.map (·.category)))) :
    List.Forall₂ (Amended periods (bringAll working (concerned periods person records) seeded) person
        records records')
      (bringAll working (concerned periods person records) seeded)
      (bringAll working (concerned periods person records') seeded) := by
  have apart (a : Absence) (h : isPlain (periods.map (·.category)) a = false) (p : Period)
      (hp : p ∈ seeded) : p.takes a = false ∧ p.completes a = false :=
    ⟨none_congr_place (fun _ _ h => Period.takes_congr h a) places
        (fun q hq => (apart_of_not_plain separate h hq).1) p hp,
      none_congr_place (fun _ _ h => Period.completes_congr h a) places
        (fun q hq => (apart_of_not_plain separate h hq).2) p hp⟩
  have outlines : (bringAll working (concerned periods person records) seeded).map Period.outline =
      (bringAll working (concerned periods person records') seeded).map Period.outline := by
    rw [bringAll_outline working apart, concerned_plain, same, ← concerned_plain,
      ← bringAll_outline working apart]
  refine (forall₂_join (bringAll_brought working _ seeded) (bringAll_brought working _ seeded)
    outlines).imp ?_
  rintro p q ⟨mem, b, hb, broughtP, broughtQ, outline⟩
  have place : b.place ∈ periods.map Period.place := places ▸ List.mem_map_of_mem hb
  have tidy := Period.tidy_of_empty (fresh b hb)
  exact ⟨mem, Period.place_of_terms broughtP.terms ▸ place, broughtP.tidy tidy, broughtQ.tidy tidy,
    outline, lists_of_brought (fresh b hb) place broughtP,
    lists_of_brought (fresh b hb) place broughtQ⟩

/-- The records that replace in a manual category are plain in a separate chain. -/
theorem replacingOn_plain {rules : RuleTree} {periods : List Period}
    (separate : Separate rules (periods.map (·.category))) {p : Period}
    (place : p.place ∈ periods.map Period.place) (manual : p.category.automatic = false)
    {records records' : List Absence}
    (same : records.filter (isPlain (periods.map (·.category))) =
      records'.filter (isPlain (periods.map (·.category)))) (person : PersonId) (d : Date) :
    replacingOn person p d records = replacingOn person p d records' := by
  have kept (l : List Absence) : replacingOn person p d l =
      replacingOn person p d (l.filter (isPlain (periods.map (·.category)))) := by
    rw [replacingOn, replacingOn, List.filter_filter]
    apply List.filter_congr
    intro a _
    cases plain : isPlain (periods.map (·.category)) a with
    | true => rw [Bool.and_true]
    | false =>
      obtain ⟨q, hq, same⟩ := List.mem_map.1 place
      obtain ⟨c, hc, automatic, replaces⟩ := isPlain_eq_false.1 plain
      obtain ⟨r, hr, rfl⟩ := List.mem_map.1 hc
      have manualQ : q.category.automatic = false := (Prod.mk.inj same).1 ▸ manual
      have none : p.replaces a = false := by
        rw [← Period.replaces_congr same, Bool.eq_false_iff]
        intro replacesQ
        rw [replaced_once separate hq hr (Bool.and_eq_true_iff.1 replacesQ).2 replaces,
          automatic] at manualQ
        cases manualQ
      rw [none, Bool.false_and, Bool.and_false, Bool.and_false]
  rw [kept records, kept records', same]

theorem findings_settle {chain chain' : Chain} (initial : chain'.findings = chain.findings)
    (h : chain'.periods.map Period.findings = chain.periods.map Period.findings) :
    chain'.settle.findings = chain.settle.findings := by
  have gathered (c : Chain) : c.settle.findings =
      (c.periods.map Period.findings).foldl Findings.merge c.findings := by
    simp only [settle, List.foldl_map, Period.settle_findings]
  rw [gathered, gathered, initial, h]

/-- Filling a chain with amended records succeeds, finds the same, and renews every period. -/
theorem fill_amended {rules : RuleTree} {working : WorkingTime} {pivot : Pivot} {laid chain : Chain}
    {records records' : List Absence} (separate : Separate rules laid.links)
    (fresh : ∀ p ∈ laid.periods, p.days = ∅)
    (same : records.filter (isPlain laid.links) = records'.filter (isPlain laid.links))
    (h : fill rules working pivot laid records = .ok chain)
    (suits : ∀ s ∈ chain.periods, s.category.automatic = true →
      ∀ d, s.Suits d (replacingOn laid.person s d records')) :
    ∃ chain', fill rules working pivot laid records' = .ok chain' ∧
      chain'.person = chain.person ∧ chain'.findings = chain.findings ∧
      List.Forall₂ (Renewed laid.person records') chain.periods chain'.periods := by
  obtain ⟨unclashed, rfl⟩ := fill_ok h
  have plain : (concerned laid.periods laid.person records).filter (isPlain laid.links) =
      (concerned laid.periods laid.person records').filter (isPlain laid.links) := by
    rw [concerned_plain, concerned_plain, same]
  have unclashed' : ∀ a ∈ concerned laid.periods laid.person records',
      clashes laid.periods a = false := by
    intro a ha
    cases isplain : isPlain laid.links a with
    | false => exact not_clashes_of_not_plain separate isplain
    | true =>
      have old := List.mem_filter.2 ⟨ha, isplain⟩
      rw [← plain] at old
      exact unclashed a (List.mem_filter.1 old).1
  have seeds : laid.periods.map (seedPeriod rules working pivot records') =
      laid.periods.map (seedPeriod rules working pivot records) :=
    List.map_congr_left fun p hp => (seedPeriod_plain separate working pivot same hp).symm
  have freshly : ∀ p ∈ laid.periods.map (seedPeriod rules working pivot records), p.days = ∅ := by
    intro p hp
    obtain ⟨b, hb, rfl⟩ := List.mem_map.1 hp
    rw [days_seedPeriod]
    exact fresh b hb
  have amended := bringAll_amended separate
    (seeded_places rules working pivot records laid.periods) freshly (working laid.person)
    laid.person same
  refine ⟨_, fill_of_unclashed rules working pivot unclashed', rfl, ?_, ?_⟩
  · rw [seeds]
    refine findings_settle (by rfl) (forall₂_map_eq.1 (amended.imp fun p q h => ?_)).symm
    exact (Period.outline_eq_iff.1 h.same).2.2.2.1
  · rw [seeds]
    simp only [Chain.filled, settle, List.forall₂_map_left_iff, List.forall₂_map_right_iff]
    apply amended.imp
    intro p q h
    cases automatic : p.category.automatic with
    | true =>
      apply renewed_automatic h.tidy h.tidy' h.same h.lists h.lists'
      refine suits p.settle (List.mem_map_of_mem h.mem) ?_
      rw [(Period.terms_eq_iff.1 (Period.terms_settle p)).1]
      exact automatic
    | false =>
      exact renewed_manual h.tidy h.tidy' h.same h.lists h.lists' automatic fun d =>
        replacingOn_plain separate h.place automatic same laid.person d

end Chain

end Entitlement
