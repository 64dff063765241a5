import Mathlib.Data.List.Nodup
import Entitlement.Proofs.Chain.Gathering
import Entitlement.Proofs.Chain.Redating

/-!
The order in which a request is written down has no part in a chain. Records are put in order by their dates
and identifiers, dependents by their birth dates, and of contracts that share no date at most one answers
each question; so a request with its lists reordered is answered by the same chain or the same error.
-/

namespace Entitlement

/-- A search finds the same in another order, if at most one element can be found. -/
theorem find?_of_perm {α : Type} {l l' : List α} (same : l'.Perm l) {test : α → Bool}
    (unique : ∀ a ∈ l, ∀ b ∈ l, test a = true → test b = true → a = b) : l'.find? test = l.find? test := by
  cases found : l.find? test with
  | none =>
    rw [List.find?_eq_none] at found ⊢
    exact fun a ha => found a (same.mem_iff.1 ha)
  | some a =>
    have mem := List.mem_of_find?_eq_some found
    have passes := List.find?_some found
    cases found' : l'.find? test with
    | none => exact absurd passes (List.find?_eq_none.1 found' a (same.mem_iff.2 mem))
    | some b =>
      exact congrArg some (unique b (same.mem_iff.1 (List.mem_of_find?_eq_some found')) a mem
        (List.find?_some found') passes)

namespace Absence

/-- Of two records that come before each other one is the other, if their identifiers tell them apart. -/
theorem eq_of_notAfter {l : List Absence} (distinct : (l.map (·.id)).Nodup) {a b : Absence} (ha : a ∈ l)
    (hb : b ∈ l) (hab : a.notAfter b = true) (hba : b.notAfter a = true) : a = b := by
  simp only [notAfter, decide_eq_true_eq] at hab hba
  exact List.inj_on_of_nodup_map distinct ha hb (Date.lex_antisymm hab hba).2

/-- Records with distinct identifiers have one order. -/
theorem inOrder_of_perm {l l' : List Absence} (same : l'.Perm l) (distinct : (l.map (·.id)).Nodup) :
    inOrder l' = inOrder l := by
  refine List.Perm.eq_of_pairwise (fun a b ha hb => ?_) (inOrder_sorted l') (inOrder_sorted l)
    ((inOrder_perm l').trans (same.trans (inOrder_perm l).symm))
  exact eq_of_notAfter distinct (same.mem_iff.1 (mem_inOrder.1 ha)) (mem_inOrder.1 hb)

theorem inOrder_filter_of_perm {l l' : List Absence} (same : l'.Perm l) (distinct : (l.map (·.id)).Nodup)
    (test : Absence → Bool) : inOrder (l'.filter test) = inOrder (l.filter test) :=
  inOrder_of_perm (same.filter test) (distinct.sublist (List.filter_sublist.map _))

end Absence

/-- What two ranges share begins with a date of its own. -/
theorem DateRange.first_mem_of_intersect {a b c : DateRange} (h : a.intersect b = some c) :
    c.first ∈ c := by
  simp only [intersect, Option.ite_none_right_eq_some, Option.some.injEq] at h
  obtain ⟨ordered, rfl⟩ := h
  exact ⟨Date.le_refl _, ordered⟩

namespace Profile

/-- Of two ranges that begin apart the later one is kept, whichever is seen first. -/
theorem later_comm {x y : DateRange} (before : x.first < y.first) (latest : Option DateRange) :
    later (later latest x) y = later (later latest y) x := by
  have behind : ¬ y.first < x.first := Date.le_of_lt before
  cases latest with
  | none => simp only [later, if_pos before, if_neg behind]
  | some l =>
    by_cases hy : y.first < l.first
    · simp only [later, if_pos hy, if_pos (Date.lt_trans before hy)]
    · by_cases hx : x.first < l.first
      · simp only [later, if_pos hx, if_neg hy, if_pos before]
      · simp only [later, if_neg hx, if_neg hy, if_pos before, if_neg behind]

structure Reorders (profile' profile : Profile) : Prop where
  contracts : profile'.contracts.Perm profile.contracts
  dependents : profile'.dependents.Perm profile.dependents
  initializations : profile'.initializations = profile.initializations

variable {profile profile' : Profile} (same : profile'.Reorders profile)

include same

/-- Dependents that qualify and agree in birth date and identifier are the same, so they have one order. -/
theorem children_of_reorders : profile'.children = profile.children := by
  let elder (a b : Dependent) : Bool := decide (a.birth < b.birth ∨ (a.birth = b.birth ∧ a.id ≤ b.id))
  have trans (a b c : Dependent) (hab : elder a b = true) (hbc : elder b c = true) : elder a c = true :=
    decide_eq_true (Date.lex_trans (of_decide_eq_true hab) (of_decide_eq_true hbc))
  have total (a b : Dependent) : (elder a b || elder b a) = true := by
    simp only [elder, Bool.or_eq_true, decide_eq_true_eq]
    exact Date.lex_total a.birth b.birth a.id b.id
  have qualifies {profile : Profile} {a : Dependent} (ha : a ∈ profile.children) : a.excluded = false := by
    simpa using (List.mem_filter.1 ((List.mergeSort_perm _ elder).mem_iff.1 ha)).2
  refine List.Perm.eq_of_pairwise (fun a b ha hb hab hba => ?_) (List.pairwise_mergeSort trans total _)
    (List.pairwise_mergeSort trans total _) ?_
  · obtain ⟨birth, id⟩ := Date.lex_antisymm (of_decide_eq_true hab) (of_decide_eq_true hba)
    have excluded := (qualifies ha).trans (qualifies hb).symm
    cases a
    cases b
    simp_all
  · exact (List.mergeSort_perm _ elder).trans
      ((same.dependents.filter _).trans (List.mergeSort_perm _ elder).symm)

theorem daysBefore?_of_reorders : profile'.daysBefore? = profile.daysBefore? := by
  have firsts := same.contracts.map (·.first)
  have least : (profile'.contracts.map (·.first)).min? = (profile.contracts.map (·.first)).min? := by
    cases h' : (profile'.contracts.map (·.first)).min? with
    | none =>
      rw [List.min?_eq_none_iff] at h'
      rw [h'] at firsts
      rw [List.nil_perm.1 firsts]
      rfl
    | some d' =>
      cases h : (profile.contracts.map (·.first)).min? with
      | none =>
        rw [List.min?_eq_none_iff] at h
        rw [h] at firsts
        rw [List.perm_nil.1 firsts] at h'
        cases h'
      | some d =>
        obtain ⟨contract', mem', rfl⟩ := List.mem_map.1 (List.min?_mem h')
        obtain ⟨contract, mem, rfl⟩ := List.mem_map.1 (List.min?_mem h)
        exact congrArg some (Date.le_antisymm (first_le h' (same.contracts.mem_iff.2 mem))
          (first_le h (same.contracts.mem_iff.1 mem')))
  funext limit
  rw [daysBefore?, daysBefore?, least]

variable (disjoint : profile.Disjoint)

include disjoint

theorem contractOn?_of_reorders : profile'.contractOn? = profile.contractOn? := by
  funext date
  exact find?_of_perm same.contracts fun a ha b hb => disjoint a ha b hb date

/-- Overlaps that begin together are those of one contract, so there is one latest overlap. -/
theorem latestOverlap?_of_reorders : profile'.latestOverlap? = profile.latestOverlap? := by
  funext range
  refine (List.Perm.foldl_eq' (same.contracts.symm.filterMap _) (fun x hx y hy latest => ?_) none).symm
  obtain ⟨a, ha, clipsa⟩ := List.mem_filterMap.1 hx
  obtain ⟨b, hb, clipsb⟩ := List.mem_filterMap.1 hy
  have within {x : DateRange} {a : Contract} (clips : range.intersect a.range = some x) :
      a.contains x.first = true :=
    Contract.contains_iff.2 ((DateRange.mem_of_intersect clips _).1 (DateRange.first_mem_of_intersect clips)).2
  have alike (begins : x.first = y.first) : x = y := by
    have under := within clipsb
    rw [← begins] at under
    obtain rfl := disjoint a ha b hb x.first (within clipsa) under
    exact Option.some.inj (clipsa.symm.trans clipsb)
  by_cases before : x.first < y.first
  · exact later_comm before latest
  · by_cases behind : y.first < x.first
    · exact (later_comm behind latest).symm
    · rw [alike (Date.eq_of_not_lt before behind)]

end Profile

namespace Chain

open DateRange

variable {rules : RuleTree} {working : WorkingTime} {pivot : Pivot} {profile : Profile}

section Same

variable (same : profile.Reorders pivot.profile)

include same

theorem rangeAround_of_reorders (contract : Contract) (category : Category) :
    rangeAround { pivot with profile := profile } contract category = rangeAround pivot contract category := by
  have child : profile.child? = pivot.profile.child? := by
    funext ordinal
    cases ordinal with
    | zero => rfl
    | succ n => exact congrArg (·[n]?) (Profile.children_of_reorders same)
  unfold rangeAround
  rw [child]

variable (disjoint : pivot.profile.Disjoint)

include disjoint

/-- The same chain is laid out for a profile in another order. -/
theorem layOut_of_reorders : layOut rules { pivot with profile := profile } = layOut rules pivot := by
  have named : ({ pivot with profile := profile } : Pivot).category = pivot.category := rfl
  have laid (contract : Contract) (ending : RuleTree.PathEnd) (categories : List Category) :
      layPeriods rules { pivot with profile := profile } contract ending false categories =
        layPeriods rules pivot contract ending false categories :=
    layPeriods_congr named same.initializations fun c _ => rangeAround_of_reorders same contract c
  unfold layOut
  simp only [laid, Profile.contractOn?_of_reorders same disjoint, Profile.daysBefore?_of_reorders same]
  rfl

/-- What a carry-over brings is found alike from records and a profile in another order. -/
theorem seedPeriod_of_reorders {records records' : List Absence} (order : records'.Perm records)
    (distinct : (records.map (·.id)).Nodup) (p : Period) :
    seedPeriod rules working { pivot with profile := profile } records' p =
      seedPeriod rules working pivot records p := by
  have overlap := Profile.latestOverlap?_of_reorders same disjoint
  have years (link : CarryOver) : link.yearPeriods profile = link.yearPeriods pivot.profile := by
    funext year range carried
    simp only [CarryOver.yearPeriods, overlap, same.initializations]
  have replayed (link : CarryOver) : link.replayYear (working pivot.person) profile =
      link.replayYear (working pivot.person) pivot.profile := by
    funext history state year
    simp only [CarryOver.replayYear, years]
  have histories (link : CarryOver) : link.history pivot.person pivot.date.year records' =
      link.history pivot.person pivot.date.year records :=
    Absence.inOrder_filter_of_perm order distinct _
  have grant (source : Category) (year : Int) : CarryOver.fullGrant source year profile =
      CarryOver.fullGrant source year pivot.profile := by
    simp only [CarryOver.fullGrant, overlap]
  simp only [seedPeriod, CarryOver.replay, replayed, histories, grant]

end Same

/-- The order of a request has no part in its chain: with the records, the dependents and the contracts in
another order the same chain is built, or the same error is found. -/
theorem build_reordered (rules : RuleTree) (working : WorkingTime) {pivot : Pivot} {profile : Profile}
    (same : profile.Reorders pivot.profile) (disjoint : pivot.profile.Disjoint)
    {records records' : List Absence} (order : records'.Perm records)
    (distinct : (records.map (·.id)).Nodup) :
    build rules working { pivot with profile := profile } records' = build rules working pivot records := by
  have filled (laid : Chain) : fill rules working { pivot with profile := profile } laid records' =
      fill rules working pivot laid records := by
    have relevant (range : DateRange) : laid.relevant range records' = laid.relevant range records :=
      Absence.inOrder_filter_of_perm order distinct _
    have seeded : seedPeriod rules working { pivot with profile := profile } records' =
        seedPeriod rules working pivot records :=
      funext (seedPeriod_of_reorders same disjoint order distinct)
    simp only [fill, relevant, seeded]
  rw [build, build, layOut_of_reorders same disjoint]
  exact bind_congr filled

/-- Leave for a second child, behind it what is left of the year before, and then the year's own days. -/
def sampleFamily : RuleTree :=
  .ofLists
    [⟨"CARE", "", .programmed, .child 2 0 8, some ⟨.units, .ofList ["HOL"], 100⟩, none,
      some "OLD", false, false⟩,
    ⟨"OLD", "", .programmed, .previousYear "NEW" 3, some ⟨.units, .ofList ["HOL"], 200⟩, none,
      some "NEW", false, false⟩,
    ⟨"NEW", "", .programmed, .year, some ⟨.units, .ofList ["HOL"], 200⟩, none, none, false, false⟩] []

def sampleTwins : Profile :=
  ⟨[⟨.sample 2020 1 1, some (.sample 2022 12 31)⟩, ⟨.sample 2023 1 1, none⟩],
    [⟨1, .sample 2020 5 1, false⟩, ⟨2, .sample 2020 5 1, false⟩], []⟩

theorem twins_disjoint : sampleTwins.Disjoint := by
  have apart {d : Date} (before : d ≤ .sample 2022 12 31) (behind : .sample 2023 1 1 ≤ d) : False :=
    absurd (Date.le_trans behind before) (by decide)
  intro a ha b hb d hda hdb
  rw [Contract.contains_iff] at hda hdb
  rcases List.mem_pair.1 ha with rfl | rfl
  · rcases List.mem_pair.1 hb with rfl | rfl
    · rfl
    · exact (apart hda.2 hdb.1).elim
  · rcases List.mem_pair.1 hb with rfl | rfl
    · exact (apart hdb.2 hda.1).elim
    · rfl

def sampleHolidays : List Absence :=
  [⟨⟨1, "HOL", .sample 2023 6 1, .allDay, none, none⟩, 1⟩,
    ⟨⟨1, "HOL", .sample 2024 2 1, .allDay, none, none⟩, 2⟩,
    ⟨⟨1, "HOL", .sample 2024 2 2, .allDay, none, none⟩, 3⟩,
    ⟨⟨1, "HOL", .sample 2024 2 5, .allDay, none, none⟩, 4⟩]

/-- With all lists of the request reversed the day of the year before still goes to the second child, one day
comes over from that year, and the rest is taken from the year's own days. -/
theorem twins_reversed : ∃ chain,
    build sampleFamily .unknown ⟨1, "NEW", .sample 2024 2 1, sampleTwins⟩ sampleHolidays = .ok chain ∧
      build sampleFamily .unknown
        ⟨1, "NEW", .sample 2024 2 1, ⟨sampleTwins.contracts.reverse, sampleTwins.dependents.reverse, []⟩⟩
        sampleHolidays.reverse = .ok chain ∧
      chain.balances.map (fun b => (b.limit.val, b.taken.val)) = [(100, 100), (100, 100), (200, 200)] := by
  have built : ((build sampleFamily .unknown ⟨1, "NEW", .sample 2024 2 1, sampleTwins⟩
      sampleHolidays).toOption.any fun chain => decide (
        chain.balances.map (fun b => (b.limit.val, b.taken.val)) =
          [(100, 100), (100, 100), (200, 200)])) = true := by cbv
  obtain ⟨chain, h, charged⟩ := (Option.any_eq_true _ _).1 built
  have h := ok_of_toOption h
  have same : Profile.Reorders ⟨sampleTwins.contracts.reverse, sampleTwins.dependents.reverse, []⟩
      (Pivot.mk 1 "NEW" (.sample 2024 2 1) sampleTwins).profile :=
    ⟨List.reverse_perm _, List.reverse_perm _, rfl⟩
  have reordered := build_reordered sampleFamily .unknown same twins_disjoint
    (List.reverse_perm sampleHolidays) (by decide)
  exact ⟨chain, h, reordered.trans h, of_decide_eq_true charged⟩

end Chain

end Entitlement
