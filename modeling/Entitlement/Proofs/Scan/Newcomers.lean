import Entitlement.Proofs.Scan.Reports
import Entitlement.Proofs.Scan.Separation

/-!
The records of a ledger under the visits of a scan. Records that stay keep the problems they have by
themselves; newcomers have none, and stand in a chain that is settled.
-/

namespace Entitlement

namespace ScanContext

variable {context : ScanContext} {scope : ScanScope}

def Uncounted (context : ScanContext) (ledger : Ledger) : Prop :=
  ∀ a ∈ ledger.records, ∀ c ∈ context.rules.all, c.replaces a.code = true → a.kind = .nothing

/-- A record that a scan has written: it has no problem by itself, and the chain around it at the category
it replaces in has periods and nothing to repair. -/
structure Newcomer (context : ScanContext) (scope : ScanScope) (ledger : Ledger) (a : Absence) : Prop where
  person : a.person = scope.person
  problems : scope.standaloneProblems ledger a = []
  place : ∃ c ∈ context.rules.all, c.replaces a.code = true ∧ context.Quiet scope a c.name ledger ∧
    ∃ laid, Chain.layOut context.rules (scope.pivot c.name a.date) = .ok laid ∧ laid.periods ≠ []

/-- The other records of a person on the date of a record. -/
theorem mem_sameDay {ledger : Ledger} {r o : Absence} :
    o ∈ (ledger.absencesIn scope.person r.date r.date).filter (fun o => o.id ≠ r.id) ↔
      o ∈ ledger.records ∧ o.person = scope.person ∧ o.date = r.date ∧ o.id ≠ r.id := by
  rw [List.mem_filter, Ledger.mem_absencesIn, decide_eq_true_eq]
  constructor
  · rintro ⟨⟨mem, mine, from', until'⟩, other⟩
    exact ⟨mem, mine, Date.le_antisymm until' from', other⟩
  · rintro ⟨mem, mine, date, other⟩
    rw [date]
    exact ⟨⟨mem, mine, Date.le_refl _, Date.le_refl _⟩, other⟩

theorem not_conflicts_of_nothing {a b : Absence} (h : a.kind = .nothing ∨ b.kind = .nothing) :
    a.conflictsWith b = false := by
  unfold Absence.conflictsWith Justification.isUncounted
  rcases h with h | h
  · simp [h]
  · simp [h]

section Changes

variable {chain : Chain} {before after : Ledger} {removed : List AbsenceId} {inserted : List Absence}
  (amends : chain.Amends before after removed inserted)

include amends

/-- A record that stays has the same doubles before and after a repair. -/
theorem mem_iff_of_doubles {r o : Absence} (hr : r ∈ before.records) (stays : r ∈ after.records)
    (doubles : o.Doubles r) : o ∈ after.records ↔ o ∈ before.records := by
  have own : r.id ∉ removed := by
    rcases amends.mem_records.1 stays with ⟨-, kept⟩ | new
    · exact kept
    · exact absurd ⟨rfl, rfl, rfl⟩ (amends.lacked new hr)
  rw [amends.mem_records]
  constructor
  · rintro (⟨old, -⟩ | new)
    · exact old
    · exact absurd doubles.symm (amends.lacked new hr)
  · intro old
    exact .inl ⟨old, fun gone => own (amends.alike old hr doubles gone)⟩

/-- A repair leaves alone the problems that a staying record has by itself. -/
theorem standaloneProblems_of_amends
    (uncounted : ∀ a, chain.Replaceable a → a ∈ before.records → a.kind = .nothing) {r : Absence}
    (mine : r.person = scope.person) (hr : r ∈ before.records) (stays : r ∈ after.records) :
    scope.standaloneProblems after r = scope.standaloneProblems before r := by
  have code : ((after.absencesIn scope.person r.date r.date).filter fun o => o.id ≠ r.id).any
      (fun o => decide (o.code = r.code)) =
        ((before.absencesIn scope.person r.date r.date).filter fun o => o.id ≠ r.id).any
          fun o => decide (o.code = r.code) := by
    rw [Bool.eq_iff_iff, List.any_eq_true, List.any_eq_true]
    apply exists_congr
    intro o
    rw [mem_sameDay, mem_sameDay, decide_eq_true_eq]
    constructor
    · rintro ⟨⟨mem, own, date, other⟩, same⟩
      have := (mem_iff_of_doubles amends hr stays ⟨own.trans mine.symm, date, same⟩).1 mem
      exact ⟨⟨this, own, date, other⟩, same⟩
    · rintro ⟨⟨mem, own, date, other⟩, same⟩
      have := (mem_iff_of_doubles amends hr stays ⟨own.trans mine.symm, date, same⟩).2 mem
      exact ⟨⟨this, own, date, other⟩, same⟩
  have conflict : ((after.absencesIn scope.person r.date r.date).filter fun o => o.id ≠ r.id).any
      r.conflictsWith =
        ((before.absencesIn scope.person r.date r.date).filter fun o => o.id ≠ r.id).any
          r.conflictsWith := by
    rw [Bool.eq_iff_iff, List.any_eq_true, List.any_eq_true]
    apply exists_congr
    intro o
    rw [mem_sameDay, mem_sameDay]
    constructor
    · rintro ⟨⟨mem, own⟩, clash⟩
      rcases amends.mem_records.1 mem with ⟨old, -⟩ | new
      · exact ⟨⟨old, own⟩, clash⟩
      · rw [not_conflicts_of_nothing (.inr (amends.writes new).2.1)] at clash
        cases clash
    · rintro ⟨⟨mem, own⟩, clash⟩
      have kept : o.id ∉ removed := by
        intro gone
        rw [not_conflicts_of_nothing (.inr (uncounted o (amends.removes mem gone) mem))] at clash
        cases clash
      exact ⟨⟨amends.mem_records.2 (.inl ⟨mem, kept⟩), own⟩, clash⟩
  simp only [ScanScope.standaloneProblems, Absence.sameDayProblems, code, conflict]

/-- A record that a repair has written has no problem by itself, if it lies under a contract. -/
theorem standaloneProblems_of_inserted
    (sole : ∀ a ∈ inserted, ∀ b ∈ inserted, a.Doubles b → a = b) {a : Absence} (ha : a ∈ inserted)
    (mine : chain.person = scope.person) (covered : scope.isCovered a = true) :
    scope.standaloneProblems after a = [] := by
  obtain ⟨-, kind, own, -⟩ := amends.writes ha
  have code : ((after.absencesIn scope.person a.date a.date).filter fun o => o.id ≠ a.id).any
      (fun o => decide (o.code = a.code)) = false := by
    apply List.any_eq_false.2
    intro o ho same
    obtain ⟨mem, person, date, other⟩ := mem_sameDay.1 ho
    have doubles : o.Doubles a := ⟨person.trans (own.trans mine).symm, date, of_decide_eq_true same⟩
    rcases amends.mem_records.1 mem with ⟨old, -⟩ | new
    · exact amends.lacked ha old doubles
    · exact other (congrArg Absence.id (sole o new a ha doubles))
  have conflict : ((after.absencesIn scope.person a.date a.date).filter fun o => o.id ≠ a.id).any
      a.conflictsWith = false :=
    List.any_eq_false.2 fun o _ => Bool.eq_false_iff.1 (not_conflicts_of_nothing (.inl kind))
  simp only [ScanScope.standaloneProblems, Absence.sameDayProblems, covered, code, conflict,
    if_true, Bool.false_eq_true, if_false, List.append_nil]

end Changes

section Separated

variable (separated : context.Separated scope) (indexed : context.rules.Indexed)

include separated indexed

/-- What a visit does to the records of a ledger: nothing, or what carrying out the repair of the chain
around its record amounts to. -/
theorem Visited.changes {record : Absence} {name : CategoryName} {ledger after : Ledger}
    {result : VisitResult} (visited : Visited context scope record name ledger result after)
    (sound : ledger.Sound) : after = ledger ∨
      ∃ (laid chain : Chain) (effect : RepairEffect),
        Chain.layOut context.rules (scope.pivot name record.date) = .ok laid ∧ chain.person = scope.person ∧
        chain.periods.map Period.place = laid.periods.map Period.place ∧
        chain.Amends ledger after (chain.removals.map (·.absence)) effect.inserted ∧
        ∀ a ∈ effect.inserted, ∀ b ∈ effect.inserted, a.Doubles b → a = b := by
  cases visited with
  | aborted _ => exact .inl rfl
  | childMissing _ _ => exact .inl rfl
  | noPeriods _ _ _ => exact .inl rfl
  | @repaired _ chain repair effect built _ nonempty planned carried =>
    obtain ⟨amends, sole, -⟩ :=
      chainAround_repaired separated indexed sound built nonempty planned carried
    obtain ⟨laid, here, filled⟩ := chainAround_ok built
    obtain ⟨person, -, places⟩ := Chain.fill_keeps filled
    exact .inr ⟨laid, chain, effect, here, person.trans (Chain.layOut_fresh here).1, places, amends, sole⟩

/-- A record that a repair may touch replaces in a period of the layout. -/
theorem replaces_of_replaceable {pivot : Pivot} {laid chain : Chain}
    (h : Chain.layOut context.rules pivot = .ok laid)
    (places : chain.periods.map Period.place = laid.periods.map Period.place) {a : Absence}
    (replaceable : chain.Replaceable a) : ∃ p ∈ laid.periods, p.category ∈ context.rules.all ∧
      a.date ∈ p.range ∧ p.category.replaces a.code = true := by
  obtain ⟨-, s, hs, -, replaces⟩ := replaceable
  obtain ⟨p, hp, place⟩ := Chain.mem_of_places places hs
  rw [← Period.replaces_congr place, Period.replaces, Bool.and_eq_true] at replaces
  exact ⟨p, hp, Chain.category_mem indexed.keyed separated.uniform h hp, Chain.mem_range_of_covers replaces.1, replaces.2⟩

/-- After a visit the records of replacing codes still justify nothing, those that stay have the problems
they had, and the others are newcomers. -/
theorem Visited.records {record : Absence} {name : CategoryName} {ledger after : Ledger}
    {result : VisitResult} (visited : Visited context scope record name ledger result after)
    (sound : ledger.Sound) (uncounted : context.Uncounted ledger) : context.Uncounted after ∧
      (∀ r ∈ ledger.records, r ∈ after.records → r.person = scope.person →
        scope.standaloneProblems after r = scope.standaloneProblems ledger r) ∧
      ∀ a ∈ after.records, a ∉ ledger.records → context.Newcomer scope after a := by
  have settles := visited.quiet separated indexed sound
  rcases visited.changes separated indexed sound with
    rfl | ⟨laid, chain, effect, here, mine, places, amends, sole⟩
  · exact ⟨uncounted, fun _ _ _ _ => rfl, fun a ha new => absurd ha new⟩
  · refine ⟨fun a ha c hc replaces => ?_, fun r hr stays own => ?_, fun a ha new => ?_⟩
    · rcases amends.mem_records.1 ha with ⟨old, -⟩ | new
      · exact uncounted a old c hc replaces
      · exact (amends.writes new).2.1
    · refine standaloneProblems_of_amends amends (fun a replaceable old => ?_) own hr stays
      obtain ⟨p, -, known, -, replaces⟩ :=
        replaces_of_replaceable separated indexed here places replaceable
      exact uncounted a old p.category known replaces
    · have written : a ∈ effect.inserted :=
        (amends.mem_records.1 ha).resolve_left fun old => new old.1
      have replaceable := (amends.writes written).2.2
      obtain ⟨p, hp, known, inside, replaces⟩ :=
        replaces_of_replaceable separated indexed here places replaceable
      have there : Chain.layOut context.rules (scope.pivot p.name a.date) =
          .ok (laid.moved p.name a.date) :=
        Chain.layOut_moved indexed.keyed separated.uniform separated.disjoint here hp inside hp
      refine ⟨replaceable.1.trans mine, ?_, p.category, known, replaces, ?_, _, there,
        List.ne_nil_of_mem hp⟩
      · exact standaloneProblems_of_inserted amends sole written mine
          (isCovered_of_laid indexed.keyed separated.uniform rfl here hp inside)
      · exact settles.met separated indexed here there ⟨p, hp, p, hp, rfl, a.date, inside, inside⟩

/-- What one visit does to the records, all visits together do. -/
theorem Visits.records {ledger after : Ledger} {visits : List Visit}
    (run : Visits context scope ledger visits after) (sound : ledger.Sound)
    (uncounted : context.Uncounted ledger) : context.Uncounted after ∧
      (∀ r ∈ ledger.records, r ∈ after.records → r.person = scope.person →
        scope.standaloneProblems after r = scope.standaloneProblems ledger r) ∧
      ∀ a ∈ after.records, a ∉ ledger.records → context.Newcomer scope after a := by
  induction run with
  | done => exact ⟨uncounted, fun _ _ _ _ => rfl, fun a ha new => absurd ha new⟩
  | @step ledger between after visit rest first run ih =>
    have earlier := first.later sound
    have later := run.later earlier.sound
    obtain ⟨uncounted, stay, come⟩ := first.records separated indexed sound uncounted
    obtain ⟨uncounted', stay', come'⟩ := ih earlier.sound uncounted
    refine ⟨uncounted', fun r hr stays own => ?_, fun a ha new => ?_⟩
    · have held := earlier.held later sound hr stays
      exact (stay' r held stays own).trans (stay r hr held own)
    · by_cases held : a ∈ between.records
      · obtain ⟨own, problems, c, hc, replaces, quiet, laid⟩ := come a held new
        refine ⟨own, (stay' a held ha own).trans problems, c, hc, replaces, ?_, laid⟩
        exact (run.steady separated indexed earlier.sound a c.name).2 quiet
      · exact come' a ha held

end Separated

end ScanContext

end Entitlement
