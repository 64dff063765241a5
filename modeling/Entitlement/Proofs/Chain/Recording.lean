import Entitlement.Proofs.Chain.Uniform

/-!
Laying out as one loop. It goes from category to category, keeps the names it has visited, adds to the periods
laid out so far, and marks those that carry over by their index, which is all that is known of them when their
limits are set later. The chain it ends with is the one along the path, and every mark has the index of the
period of its own category.
-/

namespace Entitlement

namespace Chain

open DateRange

/-- A carry-over as the loop marks it: the index of its period, its category, its source, and the last month
in which it can be used. -/
structure CarryMark where
  index : Nat
  carry : CategoryName
  source : CategoryName
  untilMonth : Nat

structure Draft where
  periods : List Period
  marks : List CarryMark
  history : Option DateRange

namespace Draft

def empty : Draft := ⟨[], [], none⟩

/-- Marks the period that is added next, if its category carries over, and adds the days before it to the
history. -/
def mark (draft : Draft) (pivot : Pivot) (category : Category) (natural : DateRange) : Draft :=
  match category.period with
  | .previousYear source untilMonth =>
    { draft with
      marks := draft.marks ++ [⟨draft.periods.length, category.name, source, untilMonth⟩]
      history := match pivot.profile.daysBefore? natural.first with
        | none => draft.history
        | some days => some (draft.history.elim days (·.span days)) }
  | _ => draft

def add (draft : Draft) (period : Period) : Draft :=
  { draft with periods := draft.periods ++ [period] }

/-- One turn of the loop: a category is laid out or skipped, and the turn tells whether the loop may go on.
`none` when a child is missing. -/
def turn (rules : RuleTree) (pivot : Pivot) (contract : Contract) (reached : Bool)
    (category : Category) (draft : Draft) : Except Fault (Option (Draft × Bool)) := do
  check rules category
  match ← rangeAround pivot contract category with
  | none => return none
  | some natural =>
    match natural.intersect contract.range with
    | none =>
      if category.carrySource?.isNone then
        throw (.malformedRules (.missesContract category.name))
      return some (draft, true)
    | some range =>
      return some ((draft.mark pivot category natural).add (emptyPeriod pivot category natural range),
        !(reached && category.isUnlimited))

def proceed (onward : Draft → Except Fault (Option Draft)) :
    Option (Draft × Bool) → Except Fault (Option Draft)
  | none => .ok none
  | some (draft, false) => .ok (some draft)
  | some (draft, true) => onward draft

/-- The loop from a category whose name is already among those visited. -/
def layFrom (rules : RuleTree) (pivot : Pivot) (contract : Contract) (visited : List CategoryName)
    (reached : Bool) (category : Category) (draft : Draft) : Except Fault (Option Draft) :=
  let reached := reached || category.name = pivot.category
  draft.turn rules pivot contract reached category >>= proceed fun draft =>
    match category.next with
    | none => .ok (some draft)
    | some next =>
      match _h : rules.category? next with
      | none => .error (.malformedRules (.unknownSuccessor category.name next))
      | some successor =>
        if _fresh : successor.name ∈ visited then
          .error (.malformedRules (.appearsTwice successor.name))
        else layFrom rules pivot contract (successor.name :: visited) reached successor draft
termination_by (rules.unvisited visited).length
decreasing_by exact RuleTree.unvisited_cons_lt (RuleTree.category?_mem ‹_›) ‹_›

end Draft

/-- The chain of a pivot with its periods still empty, and the marks of its carry-overs. -/
def layOutMarked (rules : RuleTree) (pivot : Pivot) : Except CriticalError (Chain × List CarryMark) :=
  let critical (fault : Fault) : CriticalError := ⟨pivot.category, pivot.date, none, fault⟩
  match rules.category? pivot.category with
  | none => throw (critical (.malformedRules (.unknownCategory pivot.category)))
  | some start =>
    match pivot.profile.contractOn? pivot.date with
    | none => return (blank pivot, [])
    | some contract =>
      let first := rules.head start
      match Draft.layFrom rules pivot contract [first.name] false first .empty with
      | .error fault => throw (critical fault)
      | .ok none => return ({ blank pivot with childIsMissing := true }, [])
      | .ok (some draft) =>
        return ({ blank pivot with periods := draft.periods, history := draft.history }, draft.marks)

def mark? (index : Nat) (period : Period) : Option CarryMark :=
  match period.category.period with
  | .previousYear source untilMonth => some ⟨index, period.name, source, untilMonth⟩
  | _ => none

def marksFrom (index : Nat) : List Period → List CarryMark
  | [] => []
  | period :: rest => (mark? index period).toList ++ marksFrom (index + 1) rest

theorem mark?_eq_some {index : Nat} {p : Period} {mark : CarryMark} (h : mark? index p = some mark) :
    mark.index = index ∧ mark.carry = p.name ∧
      p.category.period = .previousYear mark.source mark.untilMonth := by
  unfold mark? at h
  split at h
  · next source month period =>
    cases h
    exact ⟨rfl, rfl, period⟩
  · cases h

/-- A mark has the index of the period that it marks. -/
theorem mem_marksFrom {index : Nat} {periods : List Period} {mark : CarryMark}
    (h : mark ∈ marksFrom index periods) :
    ∃ i p, mark.index = index + i ∧ periods[i]? = some p ∧ mark.carry = p.name ∧
      p.category.period = .previousYear mark.source mark.untilMonth := by
  induction periods generalizing index with
  | nil => exact absurd h List.not_mem_nil
  | cons p rest ih =>
    rcases List.mem_append.1 h with here | later
    · obtain ⟨same, marks⟩ := mark?_eq_some (Option.mem_toList.1 here)
      exact ⟨0, p, same, rfl, marks⟩
    · obtain ⟨i, q, same, found, marks⟩ := ih later
      exact ⟨i + 1, q, by omega, found, marks⟩

namespace Draft

variable {rules : RuleTree} {pivot : Pivot} {contract : Contract} {ending : RuleTree.PathEnd}

/-- The history of a draft is not begun, or holds the days before the year of the pivot. -/
def Sound (draft : Draft) (pivot : Pivot) : Prop :=
  draft.history = none ∨ draft.history = pivot.profile.daysBefore? (yearAround pivot.date).first

def extend (draft : Draft) (pivot : Pivot) (periods : List Period) : Draft where
  periods := draft.periods ++ periods
  marks := draft.marks ++ marksFrom draft.periods.length periods
  history := if periods.any fun period => period.category.carrySource?.isSome then
      pivot.profile.daysBefore? (yearAround pivot.date).first
    else draft.history

theorem extend_nil (draft : Draft) (pivot : Pivot) : draft.extend pivot [] = draft := by
  simp [extend, marksFrom]

theorem span_self (range : DateRange) : range.span range = range := by
  have least : min range.first range.first = range.first := ite_self _
  have greatest : max range.last range.last = range.last := ite_self _
  rw [span, least, greatest]

/-- The range of a carry-over begins with the year of the pivot. -/
theorem first_of_carry {category : Category} {source : CategoryName} {month : Nat}
    (period : category.period = .previousYear source month) {natural : DateRange}
    (around : rangeAround pivot contract category = .ok (some natural)) :
    natural.first = (yearAround pivot.date).first := by
  obtain ⟨_, same, window⟩ := rangeAround_previousYear period around
  cases same
  simp only [throughMonth?, Option.bind_eq_bind, Option.bind_eq_some_iff, Option.pure_def,
    Option.some.injEq] at window
  obtain ⟨first, begins, -, -, -, -, rfl⟩ := window
  obtain ⟨year, month, day⟩ := Date.ofParts?_eq_some_iff.1 begins
  exact Date.eq_of_parts year month day

/-- A period that is marked and added extends the draft, whose history stays sound. -/
theorem add_mark {draft : Draft} (sound : draft.Sound pivot) {category : Category}
    {natural : DateRange} (range : DateRange)
    (around : rangeAround pivot contract category = .ok (some natural)) :
    (draft.mark pivot category natural).add (emptyPeriod pivot category natural range) =
        draft.extend pivot [emptyPeriod pivot category natural range] ∧
      (draft.extend pivot [emptyPeriod pivot category natural range]).Sound pivot := by
  have same : (emptyPeriod pivot category natural range).category = category := rfl
  have name : (emptyPeriod pivot category natural range).name = category.name := rfl
  cases period : category.period with
  | previousYear source month =>
    have carries : category.carrySource?.isSome = true := by simp [Category.carrySource?, period]
    refine ⟨?_, .inr (by simp [extend, same, carries])⟩
    simp only [mark, period, add, extend, marksFrom, mark?, same, name, List.any_cons, carries,
      Bool.true_or, if_true, first_of_carry period around, Option.toList_some, List.append_nil]
    congr 1
    cases days : pivot.profile.daysBefore? (yearAround pivot.date).first with
    | none => exact sound.elim id (·.trans days)
    | some days' =>
      rcases sound with blank | begun
      · rw [blank]
        rfl
      · rw [begun, days]
        exact congrArg some (span_self days')
  | always | year | month | child _ _ _ =>
    have grants : category.carrySource?.isSome = false := by simp [Category.carrySource?, period]
    refine ⟨?_, ?_⟩
    · simp [mark, period, add, extend, marksFrom, mark?, same, grants]
    · simpa [Sound, extend, same, grants] using sound

theorem extend_extend (draft : Draft) (pivot : Pivot) (period : Period) (rest : List Period) :
    (draft.extend pivot [period]).extend pivot rest = draft.extend pivot (period :: rest) := by
  simp only [extend, marksFrom, List.append_assoc, List.singleton_append, List.append_nil,
    List.length_append, List.length_singleton, List.any_cons, List.any_nil, Bool.or_false]
  congr 1
  by_cases carries : period.category.carrySource?.isSome = true
  · simp [carries]
  · simp [carries]

/-- A turn and what comes after it do what the layout does with a category and those behind it. -/
theorem turn_bind {reached : Bool} {category : Category} {rest : List Category} {draft : Draft}
    (sound : draft.Sound pivot) {onward : Draft → Except Fault (Option Draft)}
    (h : ∀ draft : Draft, draft.Sound pivot → onward draft = (layPeriods rules pivot contract ending
      (reached || category.name = pivot.category) rest).map (Option.map (draft.extend pivot))) :
    draft.turn rules pivot contract (reached || category.name = pivot.category) category >>=
        proceed onward =
      (layPeriods rules pivot contract ending reached (category :: rest)).map
        (Option.map (draft.extend pivot)) := by
  rw [turn, layPeriods]
  cases check rules category with
  | error fault => rfl
  | ok _ =>
    cases around : rangeAround pivot contract category with
    | error fault => rfl
    | ok natural =>
      cases natural with
      | none => rfl
      | some natural =>
        simp only [bind, Except.bind, pure, Except.pure]
        cases natural.intersect contract.range with
        | none =>
          cases category.carrySource?.isNone with
          | true => rfl
          | false => exact h draft sound
        | some range =>
          obtain ⟨added, sound⟩ := add_mark sound range around
          dsimp only
          rw [added]
          cases (reached || decide (category.name = pivot.category)) && category.isUnlimited with
          | true => rfl
          | false =>
            refine (h _ sound).trans ?_
            cases layPeriods rules pivot contract ending (reached || category.name = pivot.category)
                rest with
            | error fault => rfl
            | ok tail =>
              cases tail with
              | none => rfl
              | some tail =>
                exact congrArg (fun d => Except.ok (some d)) (extend_extend draft pivot _ tail)

/-- The loop lays out the periods of the path. -/
theorem layFrom_eq (visited : List CategoryName) (reached : Bool) (category : Category)
    {draft : Draft} (sound : draft.Sound pivot) :
    layFrom rules pivot contract visited reached category draft =
      (layPeriods rules pivot contract (rules.follow visited category).ending reached
        (rules.follow visited category).categories).map (Option.map (draft.extend pivot)) := by
  induction visited, category using RuleTree.follow.induct rules generalizing reached draft with
  | case1 visited category last =>
    rw [layFrom, RuleTree.follow, last]
    refine turn_bind sound fun draft _ => ?_
    exact congrArg (fun d => Except.ok (some d)) (extend_nil draft pivot).symm
  | case2 visited category next link unknown =>
    rw [layFrom, RuleTree.follow_unknown link unknown, link]
    refine turn_bind sound fun draft _ => ?_
    dsimp only
    split
    · rfl
    · next known => simp [unknown] at known
  | case3 visited category next link successor known old =>
    rw [layFrom, RuleTree.follow_known link known, if_pos old, link]
    refine turn_bind sound fun draft _ => ?_
    dsimp only
    split
    · next unknown => simp [known] at unknown
    · next found =>
      obtain rfl := Option.some.inj (known.symm.trans found)
      rw [dif_pos old]
      rfl
  | case4 visited category next link successor known fresh ih =>
    rw [layFrom, RuleTree.follow_known link known, if_neg fresh, link]
    refine turn_bind sound fun draft sound => ?_
    dsimp only
    split
    · next unknown => simp [known] at unknown
    · next found =>
      obtain rfl := Option.some.inj (known.symm.trans found)
      rw [dif_neg fresh]
      exact ih _ sound

end Draft

/-- The loop ends with the chain along the path and the marks of its periods, or with the same error. -/
theorem layOutMarked_eq (rules : RuleTree) (pivot : Pivot) : layOutMarked rules pivot =
    (layOut rules pivot).map fun chain => (chain, marksFrom 0 chain.periods) := by
  unfold layOutMarked layOut
  cases rules.category? pivot.category with
  | none => rfl
  | some start =>
    cases pivot.profile.contractOn? pivot.date with
    | none => rfl
    | some contract =>
      dsimp only
      rw [Draft.layFrom_eq [(rules.head start).name] false (rules.head start) (.inl rfl)]
      rw [RuleTree.pathFrom]
      cases layPeriods rules pivot contract
          (rules.follow [(rules.head start).name] (rules.head start)).ending false
          (rules.follow [(rules.head start).name] (rules.head start)).categories with
      | error fault => rfl
      | ok result =>
        cases result with
        | none => rfl
        | some periods => rfl

/-- A loop that ends with a chain has laid it out and marked its periods. -/
theorem layOutMarked_ok {rules : RuleTree} {pivot : Pivot} {chain : Chain} {marks : List CarryMark}
    (h : layOutMarked rules pivot = .ok (chain, marks)) :
    layOut rules pivot = .ok chain ∧ marks = marksFrom 0 chain.periods := by
  rw [layOutMarked_eq] at h
  cases laid : layOut rules pivot with
  | error error =>
    rw [laid] at h
    cases h
  | ok _ =>
    rw [laid] at h
    cases h
    exact ⟨rfl, rfl⟩

/-- Sets the limit of the period that a mark points at, from what the categories it names carry over. -/
def seedMarked (rules : RuleTree) (working : WorkingTime) (pivot : Pivot) (records : List Absence)
    (periods : List Period) (mark : CarryMark) : List Period :=
  match rules.category? mark.carry, rules.category? mark.source with
  | some carry, some source =>
    if source.takable.isSome then
      let (carried, errors) := (CarryOver.mk carry source mark.untilMonth).replay working pivot.person
        pivot.profile pivot.date.year records
      periods.modify mark.index fun period => errors.foldl Period.compromise (period.seed carried)
    else periods
  | _, _ => periods

/-- The mark of a period seeds that period and no other. -/
theorem foldl_seedMarked_mark? {rules : RuleTree} (working : WorkingTime) (pivot : Pivot)
    (records : List Absence) (done rest : List Period) {p : Period}
    (known : rules.category? p.name = some p.category) :
    (mark? done.length p).toList.foldl (seedMarked rules working pivot records) (done ++ p :: rest) =
      done ++ seedPeriod rules working pivot records p :: rest := by
  unfold mark? seedPeriod carryOver?
  cases period : p.category.period with
  | previousYear source month =>
    simp only [Option.toList_some, List.foldl_cons, List.foldl_nil, seedMarked, known]
    cases rules.category? source with
    | none => rfl
    | some origin =>
      simp only [Option.bind_some]
      by_cases takable : origin.takable.isSome = true
      · simp [takable, List.modify_eq_take_cons_drop]
      · simp [takable]
  | always | year | month | child _ _ _ => rfl

/-- Seeding the periods that the marks point at seeds every period as its own category asks. -/
theorem foldl_seedMarked {rules : RuleTree} (working : WorkingTime) (pivot : Pivot)
    (records : List Absence) {periods : List Period}
    (known : ∀ p ∈ periods, rules.category? p.name = some p.category) :
    (marksFrom 0 periods).foldl (seedMarked rules working pivot records) periods =
      periods.map (seedPeriod rules working pivot records) := by
  have behind (done : List Period) : (marksFrom done.length periods).foldl
      (seedMarked rules working pivot records) (done ++ periods) =
        done ++ periods.map (seedPeriod rules working pivot records) := by
    induction periods generalizing done with
    | nil => rfl
    | cons p rest ih =>
      have later := ih (fun q hq => known q (List.mem_cons_of_mem _ hq))
        (done ++ [seedPeriod rules working pivot records p])
      rw [List.length_append, List.length_singleton, List.append_assoc, List.append_assoc,
        List.singleton_append] at later
      rw [marksFrom, List.foldl_append, foldl_seedMarked_mark? working pivot records done rest
        (known p List.mem_cons_self)]
      exact later
  exact behind []

end Chain

end Entitlement
