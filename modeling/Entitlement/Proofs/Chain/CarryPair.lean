import Entitlement.Proofs.Chain.Layout
import Entitlement.Proofs.Chain.Replay

/-!
A carry-over followed by its own source. Every chain of such a pair has the periods of one replayed
year, so what the source has left in the chain of a year is what the replay finds left in that year,
and the carry-over of the next year is granted exactly that.
-/

namespace Entitlement

open DateRange

/-- A carry-over that is followed by its source, in a chain of just these two that nothing else
joins. -/
structure CarryPair (rules : RuleTree) (carry source : Category) (untilMonth : Nat) : Prop where
  carry_known : rules.category? carry.name = some carry
  source_known : rules.category? source.name = some source
  period : carry.period = .previousYear source.name untilMonth
  yearly : source.period = .year
  next : carry.next = some source.name
  last : source.next = none
  sole : ∀ c ∈ rules.all, c.next = some source.name → c = carry
  first : ∀ c ∈ rules.all, c.next ≠ some carry.name
  within : ∀ code, carry.takes code → source.takes code

namespace CarryPair

variable {rules : RuleTree} {carry source : Category} {untilMonth : Nat}

def link (carry source : Category) (untilMonth : Nat) : Chain.CarryOver :=
  ⟨carry, source, untilMonth⟩

theorem name_ne (pair : CarryPair rules carry source untilMonth) : carry.name ≠ source.name := by
  intro same
  have := pair.source_known
  rw [← same, pair.carry_known, Option.some.injEq] at this
  have next := pair.next
  rw [this, pair.last] at next
  cases next

theorem predecessor_source (pair : CarryPair rules carry source untilMonth) :
    rules.predecessor? source.name = some carry := by
  cases found : rules.predecessor? source.name with
  | none =>
    have := List.find?_eq_none.1 found carry (RuleTree.category?_mem pair.carry_known)
    simp [pair.next] at this
  | some c =>
    have next := List.find?_some found
    rw [pair.sole c (RuleTree.predecessor?_mem found) (by simpa using next)]

theorem predecessor_carry (pair : CarryPair rules carry source untilMonth) :
    rules.predecessor? carry.name = none :=
  List.find?_eq_none.2 fun c hc => by simpa using pair.first c hc

/-- The carry-over is the head of the chain of both. -/
theorem head_eq (pair : CarryPair rules carry source untilMonth) {start : Category}
    (h : start = carry ∨ start = source) : rules.head start = carry := by
  rcases h with rfl | rfl
  · rw [RuleTree.head, RuleTree.headFrom]
    split
    · rfl
    · next found => simp [pair.predecessor_carry] at found
  · rw [RuleTree.head, RuleTree.headFrom]
    split
    · next found => simp [pair.predecessor_source] at found
    · next previous found =>
      rw [pair.predecessor_source, Option.some.injEq] at found
      subst found
      rw [dif_neg (by simpa using pair.name_ne), RuleTree.headFrom]
      split
      · rfl
      · next found => simp [pair.predecessor_carry] at found

theorem pathFrom_eq (pair : CarryPair rules carry source untilMonth) :
    rules.pathFrom carry = ⟨[carry, source], .complete⟩ := by
  have ending : rules.follow [source.name, carry.name] source = ⟨[source], .complete⟩ := by
    rw [RuleTree.follow]
    split
    · rfl
    · next next => simp [pair.last] at next
  rw [RuleTree.pathFrom, RuleTree.follow]
  split
  · next next => simp [pair.next] at next
  · next name next =>
    rw [pair.next, Option.some.injEq] at next
    subst next
    split
    · next known => simp [pair.source_known] at known
    · next successor known =>
      rw [pair.source_known, Option.some.injEq] at known
      subst known
      rw [dif_neg (by simpa using pair.name_ne.symm), ending]

/-- With a single contract the latest overlap of a range is its part under that contract. -/
theorem latestOverlap_eq {profile : Profile} {contract : Contract}
    (h : profile.contracts = [contract]) (range : DateRange) :
    profile.latestOverlap? range = range.intersect contract.range := by
  rw [Profile.latestOverlap?, h, List.filterMap_cons]
  cases range.intersect contract.range with
  | none => rfl
  | some clipped => rfl

theorem contractOn_eq {profile : Profile} {contract : Contract} {date : Date}
    (h : profile.contracts = [contract]) (on : contract.contains date) :
    profile.contractOn? date = some contract := by
  rw [Profile.contractOn?, h]
  exact List.find?_cons_of_pos on

/-- The periods of a pair: the carry-over has passed its check, so both have limits, and the layout is
that of a replayed year into which nothing was carried yet. -/
theorem layPeriods_eq (pair : CarryPair rules carry source untilMonth) {pivot : Pivot}
    {contract : Contract} (single : pivot.profile.contracts = [contract])
    (on : contract.contains pivot.date) {result : Option (List Period)}
    (h : Chain.layPeriods rules pivot contract .complete false [carry, source] = .ok result) :
    source.takable.isSome = true ∧ result = some ((link carry source untilMonth).yearPeriods
      pivot.profile pivot.date.year (yearAround pivot.date) 0) := by
  obtain ⟨checked, laid⟩ := Chain.layPeriods_cons h
  obtain ⟨origin, known, limited, same, -⟩ :=
    Chain.checkCarry_ok (Chain.check_ok checked pair.period)
  rw [pair.source_known, Option.some.injEq] at known
  subst known
  have carry_limited := (Chain.limitedUnit?_isSome limited).1
  obtain ⟨source_limited, takable⟩ := Chain.limitedUnit?_isSome (same ▸ limited)
  obtain ⟨clipped, overlap⟩ := intersect_of_mem (mem_yearAround.2 rfl) (Contract.contains_iff.1 on)
  have carries : carry.carrySource?.isSome = true := by simp [Category.carrySource?, pair.period]
  have grants : source.carrySource?.isSome = false := by simp [Category.carrySource?, pair.yearly]
  have source_laid {reached : Bool} {tail : Option (List Period)}
      (h : Chain.layPeriods rules pivot contract .complete reached [source] = .ok tail) :
      tail = some [.start source clipped (source.limitFor (yearAround pivot.date) clipped)
        (source.initializationIn clipped pivot.profile.initializations)] := by
    obtain ⟨-, laid⟩ := Chain.layPeriods_cons h
    rw [Chain.rangeAround_year pair.yearly] at laid
    rcases laid with ⟨missing, -⟩ | ⟨natural, around, laid⟩
    · cases missing
    · cases around
      rw [overlap, source_limited, Bool.and_false] at laid
      rcases laid with ⟨misses, -⟩ | ⟨range, inside, ⟨stops, -⟩ | ⟨-, tail, ended, rfl⟩⟩
      · cases misses
      · cases stops
      · cases inside
        rw [(Chain.layPeriods_nil ended).2, Option.map_some, Chain.emptyPeriod, grants]
        rfl
  refine ⟨takable, ?_⟩
  have overlaps : pivot.profile.latestOverlap? = fun natural => natural.intersect contract.range :=
    funext (latestOverlap_eq single)
  simp only [Chain.CarryOver.yearPeriods, overlaps, link, overlap]
  rcases laid with ⟨missing, -⟩ | ⟨natural, around, laid⟩
  · obtain ⟨natural, found, -⟩ := Chain.rangeAround_previousYear pair.period missing
    cases found
  · obtain ⟨_, found, window⟩ := Chain.rangeAround_previousYear pair.period around
    cases found
    rw [carry_limited, Bool.and_false] at laid
    simp only [window, Option.bind_some]
    rcases laid with ⟨misses, -, rest⟩ | ⟨range, inside, ⟨stops, -⟩ | ⟨-, tail, rest, rfl⟩⟩
    · rw [misses, source_laid rest]
      rfl
    · cases stops
    · rw [inside, source_laid rest, Chain.emptyPeriod, carries]
      rfl

/-- The chain of a pair before its carry-over has got its limit. -/
theorem layOut_eq (pair : CarryPair rules carry source untilMonth) {pivot : Pivot} {chain : Chain}
    {contract : Contract} (single : pivot.profile.contracts = [contract])
    (on : contract.contains pivot.date)
    (named : pivot.category = carry.name ∨ pivot.category = source.name)
    (h : Chain.layOut rules pivot = .ok chain) :
    source.takable.isSome = true ∧ chain.person = pivot.person ∧ chain.periods =
      (link carry source untilMonth).yearPeriods pivot.profile pivot.date.year
        (yearAround pivot.date) 0 := by
  obtain ⟨start, known, result, laid, rfl⟩ := Chain.layOut_ok h (contractOn_eq single on)
  have start_eq : start = carry ∨ start = source := by
    rcases named with named | named
    · rw [named, pair.carry_known, Option.some.injEq] at known
      exact .inl known.symm
    · rw [named, pair.source_known, Option.some.injEq] at known
      exact .inr known.symm
  rw [pair.head_eq start_eq, pair.pathFrom_eq] at laid
  obtain ⟨takable, rfl⟩ := pair.layPeriods_eq single on laid
  exact ⟨takable, rfl, rfl⟩

end CarryPair

end Entitlement
