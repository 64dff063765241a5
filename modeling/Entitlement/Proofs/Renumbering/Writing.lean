import Entitlement.Proofs.Ledger.Part
import Entitlement.Proofs.Renumbering.Charging

/-!
Repairs of renumbered chains, and writing to a renumbered ledger. A repair names the renumbered records;
what it adds names none. Once the ledger is about to give out new identifiers only, each thing written gets
the renumbered identifier.
-/

namespace Entitlement

def Renumbering.holdings (r : Renumbering) (holdings : Ledger.Holdings) : Ledger.Holdings where
  records := holdings.records.map r.record
  annotations := holdings.annotations.map r.trouble
  days := holdings.days.map fun e => (e.1, r.number e.2)

namespace Shift

open Renumbering

variable (s : Shift)

theorem repairDays_chain (c : Chain) :
    (s.chain c).repairDays = c.repairDays.map fun e => (s.period e.1, s.day e.2) := by
  have ofPeriod (p : Period) :
      (((s.period p).days.values.filter fun day => !day.compromised).map fun day => (s.period p, day)) =
        ((p.days.values.filter fun day => !day.compromised).map fun day => (p, day)).map
          fun e => (s.period e.1, s.day e.2) := by
    have days : (s.period p).days.values = p.days.values.map s.day :=
      OrderedMap.values_relabel .same s.day p.days
    rw [days, List.filter_map, List.map_map, List.map_map]
    rfl
  have automatic : (c.periods.map s.period).filter (fun p => p.category.automatic) =
      (c.periods.filter fun p => p.category.automatic).map s.period := List.filter_map
  unfold Chain.repairDays
  simp only [chain, automatic, List.flatMap_map, List.map_flatMap, ofPeriod]

theorem wrongReplacings_day (day : PeriodDay) :
    (s.day day).wrongReplacings = day.wrongReplacings.map s.record := by
  have wrong : (day.replacings.map s.record).filter (fun r => !day.isRequired r.code) =
      (day.replacings.filter fun r => !day.isRequired r.code).map s.record := List.filter_map
  unfold PeriodDay.wrongReplacings
  show (if day.beforeInitialization then [] else
    (day.replacings.map s.record).filter fun r => !day.isRequired r.code) = _
  rw [wrong]
  exact (apply_ite (List.map s.record) _ [] _).symm

theorem addRemoval_removals (name : CategoryName) (planned : List Removal) (a : Absence) :
    Chain.addRemoval name (planned.map s.removal) (s.record a) =
      (Chain.addRemoval name planned a).map s.removal := by
  have known : (planned.map s.removal).any (fun r => r.absence = (s.record a).id) =
      planned.any fun r => r.absence = a.id := by
    rw [List.any_map]
    refine congrArg planned.any (funext fun r => ?_)
    exact decide_eq_decide.2 s.number_inj
  unfold Chain.addRemoval
  rw [known]
  split
  · rfl
  · rw [List.map_append]
    rfl

theorem removals_chain (c : Chain) : (s.chain c).removals = c.removals.map s.removal := by
  have ofDay (p : Period) (day : PeriodDay) (planned : List Removal) :
      (s.day day).wrongReplacings.foldl (Chain.addRemoval p.name) (planned.map s.removal) =
        (day.wrongReplacings.foldl (Chain.addRemoval p.name) planned).map s.removal := by
    rw [wrongReplacings_day, List.foldl_map]
    exact List.foldl_hom (List.map s.removal) (s.addRemoval_removals p.name)
  have run (days : List (Period × PeriodDay)) (planned : List Removal) :
      days.foldl (fun planned e => (s.day e.2).wrongReplacings.foldl (Chain.addRemoval e.1.name) planned)
          (planned.map s.removal) =
        (days.foldl (fun planned e => e.2.wrongReplacings.foldl (Chain.addRemoval e.1.name) planned)
          planned).map s.removal :=
    List.foldl_hom (List.map s.removal) fun planned e => ofDay e.1 e.2 planned
  unfold Chain.removals
  rw [repairDays_chain, List.foldl_map]
  exact run c.repairDays []

theorem addition?_day (rules : RuleTree) (p : Period) (day : PeriodDay) :
    Chain.addition? rules (s.period p) (s.day day) = Chain.addition? rules p day := by
  have lacks : (s.day day).lacksReplacing = day.lacksReplacing := by
    unfold PeriodDay.lacksReplacing
    simp only [Renumbering.day, List.any_map]
    rfl
  unfold Chain.addition?
  rw [lacks]
  rfl

theorem additions_days (rules : RuleTree) (days : List (Period × PeriodDay)) :
    Chain.additions rules (days.map fun e => (s.period e.1, s.day e.2)) = Chain.additions rules days := by
  induction days with
  | nil => rfl
  | cons e rest ih => simp only [List.map_cons, Chain.additions, addition?_day, ih]

theorem repair_chain (rules : RuleTree) (c : Chain) :
    (s.chain c).repair rules = (c.repair rules).map s.repair := by
  unfold Chain.repair
  rw [repairDays_chain, additions_days, removals_chain]
  cases Chain.additions rules c.repairDays with
  | error condition => rfl
  | ok planned => rfl

variable (l : Ledger)

theorem record?_ledger (id : AbsenceId) :
    (s.ledger l).record? (s.number id) = (l.record? id).map s.record :=
  OrderedMap.get?_relabel s.embeds s.record l.absences id

theorem absencesIn_ledger (person : PersonId) (first last : Date) :
    (s.ledger l).absencesIn person first last = (l.absencesIn person first last).map s.record := by
  have values : (s.ledger l).absences.values = l.absences.values.map s.record :=
    OrderedMap.values_relabel s.embeds s.record l.absences
  unfold Ledger.absencesIn
  rw [values, List.filter_map, inOrder_records]
  rfl

theorem troublesOf_ledger (id : AbsenceId) :
    (s.ledger l).troublesOf (s.number id) = (l.troublesOf id).map s.trouble := by
  have values : (s.ledger l).troubles.values = l.troubles.values.map s.trouble :=
    OrderedMap.values_relabel s.embeds s.trouble l.troubles
  unfold Ledger.troublesOf
  rw [values, List.filter_map]
  refine congrArg (List.map s.trouble) (List.filter_congr fun t _ => ?_)
  exact decide_eq_decide.2 s.number_inj

theorem day?_ledger (person : PersonId) (date : Date) :
    (s.ledger l).day? person date = (l.day? person date).map s.number :=
  OrderedMap.get?_relabel .same s.number l.days (person, date)

variable {l}

/-- Identifiers that are given out later are new, and renumbered. -/
theorem freshId_ledger (later : s.first ≤ l.nextId) :
    (s.ledger l).freshId = s.number l.freshId ∧ s.number l.freshId + 1 = s.number (l.freshId + 1) := by
  have positive := s.positive
  have fresh : l.freshId = l.nextId := Nat.max_eq_left (by omega)
  rw [fresh, s.number_new later, s.number_new (Nat.le_succ_of_le later)]
  constructor
  · show max (s.number l.nextId) 1 = _
    rw [s.number_new later]
    exact Nat.max_eq_left (by omega)
  · omega

theorem putDay_ledger (later : s.first ≤ l.nextId) (person : PersonId) (date : Date) :
    (s.ledger l).putDay person date =
      (s.number (l.putDay person date).1, s.ledger (l.putDay person date).2) := by
  obtain ⟨fresh, next⟩ := s.freshId_ledger later
  unfold Ledger.putDay
  simp only [fresh, next]
  refine Prod.ext rfl ?_
  exact congrArg (fun ds => Ledger.mk _ _ ds _ _) (OrderedMap.insert_relabel .same s.number l.days _ _)

theorem placeAbsence_ledger (later : s.first ≤ l.nextId) (draft : AbsenceDraft) :
    (s.ledger l).placeAbsence (s.draft draft) =
      (s.record (l.placeAbsence draft).1, s.ledger (l.placeAbsence draft).2) := by
  obtain ⟨fresh, next⟩ := s.freshId_ledger later
  have new : ¬ l.freshId < s.first := Nat.not_lt.2 (Nat.le_trans later (Nat.le_max_left _ _))
  have placed : s.record (l.placeAbsence draft).1 =
      { s.draft draft with id := s.number l.freshId : Absence } := by
    unfold Ledger.placeAbsence record
    simp only [if_neg new]
    rfl
  refine Prod.ext ?_ ?_
  · rw [placed, ← fresh]
    rfl
  · have absences := OrderedMap.insert_relabel s.embeds s.record l.absences l.freshId (l.placeAbsence draft).1
    rw [placed] at absences
    unfold Ledger.placeAbsence
    simp only [fresh, next]
    exact congrArg (fun as => Ledger.mk as _ _ _ _) absences

theorem removeAbsence_ledger (id : AbsenceId) : (s.ledger l).removeAbsence (s.number id) =
    ((l.removeAbsence id).1, s.ledger (l.removeAbsence id).2) := by
  have held : (s.ledger l).holds (s.number id) = l.holds id :=
    OrderedMap.contains_relabel s.embeds s.record l.absences id
  unfold Ledger.removeAbsence
  rw [held]
  split
  · have absences := OrderedMap.erase_relabel s.embeds s.record l.absences id
    have troubles := OrderedMap.filter_relabel s.embeds s.trouble l.troubles
      (p := fun _ t => decide (t.absence ≠ s.number id)) (q := fun _ t => decide (t.absence ≠ id))
      fun _ _ _ => decide_eq_decide.2 (not_congr s.number_inj)
    refine Prod.ext rfl ?_
    exact congrArg₂ (fun as ts => Ledger.mk as ts _ _ _) absences troubles
  · rfl

theorem putTrouble_ledger (later : s.first ≤ l.nextId) (absence : AbsenceId) (problem : Problem) :
    (s.ledger l).putTrouble (s.number absence) problem =
      (s.trouble (l.putTrouble absence problem).1, s.ledger (l.putTrouble absence problem).2) := by
  obtain ⟨fresh, next⟩ := s.freshId_ledger later
  unfold Ledger.putTrouble
  simp only [fresh, next]
  refine Prod.ext rfl ?_
  exact congrArg (fun ts => Ledger.mk _ ts _ _ _)
    (OrderedMap.insert_relabel s.embeds s.trouble l.troubles l.freshId ⟨l.freshId, absence, problem⟩)

theorem removeTrouble_ledger (id : TroubleId) : (s.ledger l).removeTrouble (s.number id) =
    ((l.removeTrouble id).1, s.ledger (l.removeTrouble id).2) := by
  have present : (s.ledger l).troubles.contains (s.number id) = l.troubles.contains id :=
    OrderedMap.contains_relabel s.embeds s.trouble l.troubles id
  unfold Ledger.removeTrouble
  rw [present]
  split
  · refine Prod.ext rfl ?_
    exact congrArg (fun ts => Ledger.mk _ ts _ _ _) (OrderedMap.erase_relabel s.embeds s.trouble l.troubles id)
  · rfl

/-- Renumbering a ledger leaves the choice of those to keep among its annotations as it is. -/
theorem splitTroubles_troubles (wanted kept : OrderedSet Problem) (ts : List Trouble) :
    Ledger.splitTroubles wanted kept (ts.map s.trouble) =
      ((Ledger.splitTroubles wanted kept ts).1, (Ledger.splitTroubles wanted kept ts).2.map s.number) := by
  induction ts generalizing kept with
  | nil => rfl
  | cons t rest ih =>
    have problem : (s.trouble t).problem = t.problem := rfl
    simp only [List.map_cons, Ledger.splitTroubles, problem, ih]
    split
    · rfl
    · rfl

section Holdings

variable {l' : Ledger} {who : PersonId → Bool}

theorem holdings_ledger (own : l'.part who = s.ledger (l.part who)) :
    l'.holdings who = s.holdings (l.holdings who) := by
  rw [Ledger.holdings_part, Ledger.holdings_part, own, Renumbering.holdings]
  congr 1
  · exact OrderedMap.values_relabel s.embeds s.record _
  · exact OrderedMap.values_relabel s.embeds s.trouble _

theorem holdings_reverse : Function.LeftInverse s.reverse.holdings s.holdings := by
  intro h
  have days : Function.LeftInverse (fun e : (PersonId × Date) × DayId => (e.1, s.reverse.number e.2))
      fun e => (e.1, s.number e.2) := fun e => Prod.ext rfl (s.number_reverse e.2)
  simp only [Renumbering.holdings, s.record_reverse.list_map _, s.trouble_reverse.list_map _,
    days.list_map _]

/-- What is held before identifiers are given out from the first new one on is not renumbered. -/
theorem ledger_part_old (proper : l.Proper) (old : l.nextId ≤ s.first) :
    s.ledger (l.part who) = { l.part who with nextId := s.number l.nextId } := by
  have absences : (l.part who).absences.relabel s.embeds s.record = (l.part who).absences := by
    refine OrderedMap.relabel_eq_self s.embeds fun id a mem => ?_
    have found := OrderedMap.get?_eq_some_iff.2 (List.mem_filter.1 mem).1
    have below := Nat.lt_of_lt_of_le (proper.sound.below found) old
    exact ⟨s.number_old below, s.record_old (by rw [proper.sound.keyed found]; exact below)⟩
  have troubles : (l.part who).troubles.relabel s.embeds s.trouble = (l.part who).troubles := by
    refine OrderedMap.relabel_eq_self s.embeds fun id t mem => ?_
    have found := OrderedMap.get?_eq_some_iff.2 (List.mem_filter.1 mem).1
    have below := Nat.lt_of_lt_of_le (proper.tagged.below found) old
    obtain ⟨a, on⟩ := Option.isSome_iff_exists.1 (proper.attached id t found)
    have onOld := Nat.lt_of_lt_of_le (proper.sound.below on) old
    refine ⟨s.number_old below, ?_⟩
    rw [Renumbering.trouble, proper.tagged.keyed found, s.number_old below, s.number_old onOld,
      ← proper.tagged.keyed found]
  have days : (l.part who).days.relabel .same s.number = (l.part who).days := by
    refine OrderedMap.relabel_eq_self .same fun key day mem => ⟨rfl, s.number_old ?_⟩
    exact Nat.lt_of_lt_of_le
      (proper.rostered.below (List.mem_map.2 ⟨_, (List.mem_filter.1 mem).1, rfl⟩)) old
  simp only [ledger, absences, troubles, days]
  rfl

end Holdings

end Shift

end Entitlement
