import Entitlement.Proofs.Calendar.Windows
import Entitlement.Proofs.Chain.Filling
import Entitlement.Proofs.Chain.Layout

/-!
The records that concern some period of a chain. The filling gathers records by the codes of the chain
and the range around its periods, which may be more; those that concern no period change nothing, so
the filled chain is a function of the records that do.
-/

namespace Entitlement

namespace Category

/-- The codes of a category are those it takes, those that complete it and those that replace in it. -/
theorem mem_codes {category : Category} {code : Code} : code ∈ category.codes ↔
    category.takes code = true ∨ category.completes code = true ∨ category.replaces code = true := by
  have takable : code ∈ (category.takable.elim [] fun t => t.codes.toList) ↔
      category.takes code = true := by
    cases h : category.takable with
    | none => simp [takes, h]
    | some t => simp [takes, h, OrderedSet.mem_def]
  have completion : code ∈ category.completion.elim [] Completion.allCodes ↔
      category.completes code = true ∨ category.replaces code = true := by
    cases h : category.completion with
    | none => simp [completes, replaces, h]
    | some c =>
      simp [completes, replaces, h, Completion.allCodes, Completion.isReplacing, OrderedSet.mem_def]
  rw [codes, OrderedSet.mem_ofList, List.mem_append, takable, completion]

end Category

namespace Chain

theorem mem_codes {chain : Chain} {code : Code} :
    code ∈ chain.codes ↔ ∃ p ∈ chain.periods, code ∈ p.category.codes := by
  rw [codes, OrderedSet.mem_ofList, List.mem_flatMap]
  rfl

private theorem mem_foldl_span {d : Date} (periods : List Period) (range : DateRange)
    (h : d ∈ range ∨ ∃ p ∈ periods, d ∈ p.range) :
    d ∈ periods.foldl (fun range p => range.span p.range) range := by
  induction periods generalizing range with
  | nil => simpa using h
  | cons p rest ih =>
      rw [List.foldl_cons]
      apply ih _
      rcases h with h | ⟨q, hq, hd⟩
      · exact .inl (DateRange.mem_span_left h)
      · rcases List.mem_cons.1 hq with rfl | hq
        · exact .inl (DateRange.mem_span_right hd)
        · exact .inr ⟨q, hq, hd⟩

/-- The range of a chain covers its periods. -/
theorem mem_range {chain : Chain} {range : DateRange} (h : chain.range = some range) {p : Period}
    (hp : p ∈ chain.periods) {d : Date} (hd : d ∈ p.range) : d ∈ range := by
  unfold Chain.range at h
  cases periods : chain.periods with
  | nil => simp [periods] at hp
  | cons first rest =>
    rw [periods] at h hp
    cases h
    apply mem_foldl_span rest first.range
    rcases List.mem_cons.1 hp with rfl | hp
    · exact .inl hd
    · exact .inr ⟨p, hp, hd⟩

/-- A chain without periods, and only that, has no range. -/
theorem range_eq_none {chain : Chain} : chain.range = none ↔ chain.periods = [] := by
  unfold Chain.range
  cases chain.periods with
  | nil => simp
  | cons first rest => simp

end Chain

theorem Period.concerns_eq {period : Period} {record : Absence} :
    period.concerns record = (period.covers record.date && period.category.codes.contains record.code) := by
  rw [Bool.eq_iff_iff]
  simp only [concerns, takes, completes, replaces, Bool.or_eq_true, Bool.and_eq_true,
    OrderedSet.contains_iff, Category.mem_codes]
  constructor
  · rintro ((⟨covers, h⟩ | ⟨covers, h⟩) | ⟨covers, h⟩)
    · exact ⟨covers, .inl h⟩
    · exact ⟨covers, .inr (.inl h)⟩
    · exact ⟨covers, .inr (.inr h)⟩
  · rintro ⟨covers, h | h | h⟩
    · exact .inl (.inl ⟨covers, h⟩)
    · exact .inl (.inr ⟨covers, h⟩)
    · exact .inr ⟨covers, h⟩

namespace Chain

def concerned (periods : List Period) (person : PersonId) (records : List Absence) : List Absence :=
  Absence.inOrder (records.filter fun a => a.person = person && periods.any fun p => p.concerns a)

theorem mem_concerned {periods : List Period} {person : PersonId} {records : List Absence}
    {a : Absence} : a ∈ concerned periods person records ↔
      a ∈ records ∧ a.person = person ∧ ∃ p ∈ periods, p.concerns a = true := by
  simp only [concerned, Absence.mem_inOrder, List.mem_filter, Bool.and_eq_true, decide_eq_true_eq,
    List.any_eq_true]

theorem concerned_congr {ps qs : List Period} (h : ps.map Period.place = qs.map Period.place)
    (person : PersonId) (records : List Absence) :
    concerned ps person records = concerned qs person records := by
  simp only [concerned, any_concerns_congr h]

/-- Of the records gathered for a chain those that concern a period are all that do. -/
theorem relevant_filter {chain : Chain} {range : DateRange} (h : chain.range = some range)
    (records : List Absence) :
    ((chain.relevant range records).filter fun a => chain.periods.any fun p => p.concerns a) =
      concerned chain.periods chain.person records := by
  rw [relevant, Absence.inOrder_filter, List.filter_filter, concerned]
  congr 1
  apply List.filter_congr
  intro a _
  rw [Bool.eq_iff_iff]
  simp only [Bool.and_eq_true, decide_eq_true_eq, List.any_eq_true, OrderedSet.contains_iff]
  constructor
  · rintro ⟨concerned, ⟨same, -⟩, -⟩
    exact ⟨same, concerned⟩
  · rintro ⟨same, p, hp, concerns⟩
    refine ⟨⟨p, hp, concerns⟩, ⟨same, ?_⟩, ?_⟩
    · rw [Period.concerns_eq, Bool.and_eq_true] at concerns
      exact DateRange.contains_iff.2 (mem_range h hp (DateRange.contains_iff.1 concerns.1))
    · rw [Period.concerns_eq, Bool.and_eq_true, OrderedSet.contains_iff] at concerns
      exact mem_codes.2 ⟨p, hp, concerns.2⟩

/-- A record that clashes concerns a period. -/
theorem concerns_of_clashes {periods : List Period} {a : Absence} (h : clashes periods a = true) :
    (periods.any fun p => p.concerns a) = true := by
  rw [List.any_eq_true]
  rcases clashes_iff.1 h with h | h
  · obtain ⟨p, hp, completes⟩ := List.countP_pos_iff.1 (Nat.lt_of_succ_lt h)
    exact ⟨p, hp, by simp [Period.concerns, completes]⟩
  · obtain ⟨p, hp, replaces⟩ := List.countP_pos_iff.1 (Nat.lt_of_succ_lt h)
    exact ⟨p, hp, by simp [Period.concerns, replaces]⟩

private theorem find?_clashes (periods : List Period) (records : List Absence) :
    (records.filter fun a => periods.any fun p => p.concerns a).find? (clashes periods) =
      records.find? (clashes periods) := by
  rw [List.find?_filter]
  refine congrArg (List.find? · records) (funext fun a => ?_)
  cases clash : clashes periods a with
  | false => simp
  | true => simp [concerns_of_clashes clash]

theorem joined_filter (periods : List Period) (participants : OrderedSet AbsenceId)
    (records : List Absence) : joined periods participants records =
      joined periods participants (records.filter fun a => periods.any fun p => p.concerns a) := by
  apply OrderedSet.ext
  intro id
  simp only [mem_joined, List.mem_filter, List.any_eq_true]
  constructor
  · rintro (old | ⟨a, ha, same, concerned⟩)
    · exact .inl old
    · exact .inr ⟨a, ⟨ha, concerned⟩, same, concerned⟩
  · rintro (old | ⟨a, ⟨ha, -⟩, same, concerned⟩)
    · exact .inl old
    · exact .inr ⟨a, ha, same, concerned⟩

theorem concerned_nil (person : PersonId) (records : List Absence) :
    concerned [] person records = [] := by
  simp [concerned]

/-- A chain without periods is filled as it is. -/
theorem filled_of_nil {chain : Chain} (h : chain.periods = []) (working : Date → Option Amount) :
    chain.filled working [] [] = chain := by
  cases chain
  cases h
  rfl

/-- Filling a chain reads the records that concern its periods, and those before them that decide what
is carried over. -/
theorem fill_concerned (rules : RuleTree) (working : WorkingTime) (pivot : Pivot) (chain : Chain)
    (records : List Absence) :
    fill rules working pivot chain records =
      match (concerned chain.periods chain.person records).find? (clashes chain.periods) with
      | some record => .error (clashError chain.category record)
      | none => .ok (chain.filled (working chain.person)
          (chain.periods.map (seedPeriod rules working pivot records))
          (concerned chain.periods chain.person records)) := by
  cases hrange : chain.range with
  | none =>
    have empty := range_eq_none.1 hrange
    have filled := filled_of_nil empty (working chain.person)
    simp only [fill, hrange, empty, concerned_nil, List.find?_nil, List.map_nil]
    exact congrArg Except.ok filled.symm
  | some range =>
    have seeded := seeded_places rules working pivot records chain.periods
    have unconcerned (a : Absence) (ha : (chain.periods.any fun p => p.concerns a) = false) :
        ∀ p ∈ chain.periods.map (seedPeriod rules working pivot records), p.concerns a = false :=
      none_congr_place (fun _ _ h => Period.concerns_congr h a) seeded fun p hp =>
        Bool.eq_false_iff.2 (List.any_eq_false.1 ha p hp)
    rw [fill_eq rules working pivot records hrange, ← relevant_filter hrange, find?_clashes]
    cases (chain.relevant range records).find? (clashes chain.periods) with
    | some record => rfl
    | none =>
      apply congrArg Except.ok
      unfold filled
      rw [← joined_filter, ← bringAll_filter (working chain.person) unconcerned]

/-- A chain that no record clashes with is filled. -/
theorem fill_of_unclashed (rules : RuleTree) (working : WorkingTime) (pivot : Pivot) {laid : Chain}
    {records : List Absence}
    (unclashed : ∀ a ∈ concerned laid.periods laid.person records, clashes laid.periods a = false) :
    fill rules working pivot laid records = .ok (laid.filled (working laid.person)
      (laid.periods.map (seedPeriod rules working pivot records))
      (concerned laid.periods laid.person records)) := by
  rw [fill_concerned, List.find?_eq_none.2 fun a ha => Bool.eq_false_iff.1 (unclashed a ha)]

/-- A chain is filled with the records that concern it, none of which clashes. -/
theorem fill_ok {rules : RuleTree} {working : WorkingTime} {pivot : Pivot} {laid chain : Chain}
    {records : List Absence} (h : fill rules working pivot laid records = .ok chain) :
    (∀ a ∈ concerned laid.periods laid.person records, clashes laid.periods a = false) ∧
      chain = laid.filled (working laid.person)
        (laid.periods.map (seedPeriod rules working pivot records))
        (concerned laid.periods laid.person records) := by
  rw [fill_concerned] at h
  cases clash : (concerned laid.periods laid.person records).find? (clashes laid.periods) with
  | some a =>
    rw [clash] at h
    cases h
  | none =>
    rw [clash] at h
    exact ⟨fun a ha => Bool.eq_false_iff.2 (List.find?_eq_none.1 clash a ha), (Except.ok.inj h).symm⟩

/-- Filling a chain leaves what its layout has found out, and its periods where they are. -/
theorem fill_keeps {rules : RuleTree} {working : WorkingTime} {pivot : Pivot} {laid chain : Chain}
    {records : List Absence} (h : fill rules working pivot laid records = .ok chain) :
    chain.person = laid.person ∧ chain.childIsMissing = laid.childIsMissing ∧
      chain.periods.map Period.place = laid.periods.map Period.place := by
  obtain ⟨-, rfl⟩ := fill_ok h
  have kept := place_of_terms (bringAll_terms (working laid.person)
    (concerned laid.periods laid.person records)
    (laid.periods.map (seedPeriod rules working pivot records)))
  refine ⟨rfl, rfl, ?_⟩
  rw [← seeded_places rules working pivot records laid.periods, ← kept, filled, settle, List.map_map]
  exact List.map_congr_left fun p _ => Period.place_of_terms (Period.terms_settle p)

/-- Every period of a chain stands where one stands in a chain with the same places. -/
theorem mem_of_places {chain laid : Chain}
    (places : chain.periods.map Period.place = laid.periods.map Period.place) {s : Period}
    (hs : s ∈ chain.periods) : ∃ p ∈ laid.periods, p.place = s.place :=
  List.mem_map.1 (places ▸ List.mem_map_of_mem hs)

/-- A chain that is built is one laid out for the pivot, filled with records none of which clashes. -/
theorem build_ok {rules : RuleTree} {working : WorkingTime} {pivot : Pivot} {records : List Absence}
    {chain : Chain} (h : build rules working pivot records = .ok chain) :
    ∃ laid, layOut rules pivot = .ok laid ∧
      (∀ a ∈ concerned laid.periods laid.person records, clashes laid.periods a = false) ∧
      chain = laid.filled (working laid.person)
        (laid.periods.map (seedPeriod rules working pivot records))
        (concerned laid.periods laid.person records) := by
  obtain ⟨laid, hlaid, h⟩ := bind_ok h
  exact ⟨laid, hlaid, fill_ok h⟩

end Chain

end Entitlement
