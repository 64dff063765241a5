import Entitlement.Proofs.Chain.Gains
import Entitlement.Proofs.Chain.Gathering
import Entitlement.Proofs.Chain.Uniform
import Entitlement.Proofs.Ledger.Records
import Entitlement.Scan.Visit

/-!
The chain around a record and a category, as a layout filled with the records of the ledger in its
reach. Under uniform rules it is the chain around any record in its periods and any of its categories.
-/

namespace Entitlement

theorem Ledger.mem_absencesIn {ledger : Ledger} {person : PersonId} {first last : Date} {a : Absence} :
    a ∈ ledger.absencesIn person first last ↔
      a ∈ ledger.records ∧ a.person = person ∧ first ≤ a.date ∧ a.date ≤ last := by
  simp only [absencesIn, Absence.mem_inOrder, List.mem_filter, Bool.and_eq_true, decide_eq_true_eq,
    records, and_assoc]

namespace ScanScope

def pivot (scope : ScanScope) (name : CategoryName) (date : Date) : Pivot :=
  ⟨scope.person, name, date, scope.profile⟩

def gathered (scope : ScanScope) (laid : Chain) (ledger : Ledger) : List Absence :=
  laid.reach.elim [] fun range => ledger.absencesIn scope.person range.first range.last

theorem mem_gathered {scope : ScanScope} {laid : Chain} {ledger : Ledger} {a : Absence} :
    a ∈ scope.gathered laid ledger ↔
      a ∈ ledger.records ∧ a.person = scope.person ∧ ∃ range, laid.reach = some range ∧ a.date ∈ range := by
  unfold gathered
  cases reach : laid.reach with
  | none => simp
  | some range => simp [Ledger.mem_absencesIn, DateRange.mem_def]

end ScanScope

namespace Chain

theorem range_of_reach {chain : Chain} (h : chain.reach = none) : chain.range = none := by
  cases range : chain.range with
  | none => rfl
  | some _ =>
    unfold reach at h
    rw [range] at h
    cases history : chain.history with
    | none =>
      rw [history] at h
      cases h
    | some _ =>
      rw [history] at h
      cases h

/-- The reach of a chain holds the dates of its periods and of its history. -/
theorem mem_reach {chain : Chain} {d : Date} (h : (∃ p ∈ chain.periods, d ∈ p.range) ∨
    ∃ history, chain.history = some history ∧ d ∈ history) :
    ∃ range, chain.reach = some range ∧ d ∈ range := by
  unfold reach
  cases range : chain.range with
  | none =>
    have empty := range_eq_none.1 range
    rcases h with ⟨p, hp, -⟩ | ⟨history, known, inside⟩
    · exact absurd hp (empty ▸ List.not_mem_nil)
    · rw [known]
      exact ⟨history, rfl, inside⟩
  | some around =>
    cases known : chain.history with
    | none =>
      rcases h with ⟨p, hp, inside⟩ | ⟨history, known', -⟩
      · exact ⟨around, rfl, mem_range range hp inside⟩
      · rw [known] at known'
        cases known'
    | some history =>
      refine ⟨around.span history, rfl, ?_⟩
      rcases h with ⟨p, hp, inside⟩ | ⟨history', known', inside⟩
      · exact DateRange.mem_span_left (mem_range range hp inside)
      · rw [known] at known'
        cases known'
        exact DateRange.mem_span_right inside

end Chain

namespace ScanContext

variable {context : ScanContext} {scope : ScanScope}

theorem chainAround_eq (record : Absence) (name : CategoryName) (ledger : Ledger) :
    context.chainAround scope record name ledger =
      Chain.layOut context.rules (scope.pivot name record.date) >>= fun laid =>
        Chain.fill context.rules context.working (scope.pivot name record.date) laid
          (scope.gathered laid ledger) := by
  unfold chainAround ScanScope.gathered
  apply bind_congr
  intro laid
  cases reach : laid.reach with
  | none =>
    dsimp only
    rw [Chain.fill, Chain.range_of_reach reach]
  | some range => rfl

/-- A chain around a record is laid out for it and filled with the records in its reach. -/
theorem chainAround_ok {record : Absence} {name : CategoryName} {ledger : Ledger} {chain : Chain}
    (h : context.chainAround scope record name ledger = .ok chain) :
    ∃ laid, Chain.layOut context.rules (scope.pivot name record.date) = .ok laid ∧
      Chain.fill context.rules context.working (scope.pivot name record.date) laid
        (scope.gathered laid ledger) = .ok chain := by
  rw [chainAround_eq] at h
  exact Chain.bind_ok h

/-- If the contracts begin before all records of the person, the chain around a record is the one built
from all records. -/
theorem chainAround_eq_build {ledger : Ledger}
    (begun : ∀ a ∈ ledger.records, a.person = scope.person →
      ∃ contract ∈ scope.profile.contracts, contract.first ≤ a.date)
    (record : Absence) (name : CategoryName) : context.chainAround scope record name ledger =
      Chain.build context.rules context.working (scope.pivot name record.date) ledger.records := by
  rw [chainAround_eq, Chain.build]
  cases hlaid : Chain.layOut context.rules (scope.pivot name record.date) with
  | error error => rfl
  | ok laid =>
    show Chain.fill _ _ _ laid (scope.gathered laid ledger) = Chain.fill _ _ _ laid ledger.records
    have person : laid.person = scope.person := (Chain.layOut_fresh hlaid).1
    unfold ScanScope.gathered
    cases reach : laid.reach with
    | none => simp only [Chain.fill, Chain.range_of_reach reach]
    | some range =>
      have inside {d : Date} (h : (∃ p ∈ laid.periods, d ∈ p.range) ∨
          ∃ history, laid.history = some history ∧ d ∈ history) : d ∈ range := by
        obtain ⟨range', reach', inside⟩ := Chain.mem_reach h
        rw [reach] at reach'
        exact Option.some.inj reach' ▸ inside
      refine Chain.fill_gathered (fun a ha mine p hp concerned => ?_)
        fun p hp link carries a ha mine before taken => ?_
      · rw [Period.concerns_eq, Bool.and_eq_true] at concerned
        have := inside (.inl ⟨p, hp, Chain.mem_range_of_covers concerned.1⟩)
        simpa [mine, person, DateRange.mem_def] using this
      · obtain ⟨contract, mem, early⟩ := begun a ha mine
        obtain ⟨source, month, period, -⟩ := Chain.carryOver_eq_some carries
        obtain ⟨history, known, mem⟩ := Profile.mem_daysBefore mem early before
        have := inside (.inr ⟨history, ?_, mem⟩)
        · simpa [show a.person = scope.person from mine, DateRange.mem_def] using this
        · rw [Chain.layOut_history hlaid, Chain.historyOf, if_pos]
          · exact known
          · exact List.any_eq_true.2 ⟨p, hp, by simp [Category.carrySource?, period]⟩

/-- Around a record in a period of the chain and around a category of the chain stands the same chain. -/
theorem chainAround_moved (keyed : context.rules.Keyed) (uniform : context.rules.Uniform)
    (disjoint : scope.profile.Disjoint) {record : Absence} {name : CategoryName} {laid : Chain}
    (h : Chain.layOut context.rules (scope.pivot name record.date) = .ok laid) {p q : Period}
    (hp : p ∈ laid.periods) (hq : q ∈ laid.periods) {other : Absence} (inside : other.date ∈ p.range)
    (ledger : Ledger) : (context.chainAround scope other q.name ledger).toOption =
      (context.chainAround scope record name ledger).toOption.map (·.moved q.name other.date) := by
  have around : Chain.layOut context.rules (scope.pivot q.name other.date) =
      .ok (laid.moved q.name other.date) :=
    Chain.layOut_moved keyed uniform disjoint h hp inside hq
  rw [chainAround_eq, chainAround_eq, h, around]
  exact Chain.fill_moved keyed uniform context.working h hp inside q.name _

/-- The dates of a chain lie under a contract. -/
theorem isCovered_of_laid {laid : Chain} (keyed : context.rules.Keyed) (uniform : context.rules.Uniform)
    {pivot : Pivot} (profile : pivot.profile = scope.profile)
    (h : Chain.layOut context.rules pivot = .ok laid) {p : Period} (hp : p ∈ laid.periods) {a : Absence}
    (inside : a.date ∈ p.range) : scope.isCovered a = true := by
  obtain ⟨contract, first, along⟩ := Chain.laidAlong keyed uniform h (List.ne_nil_of_mem hp)
  obtain ⟨-, -, natural, -, spans⟩ := along.of_mem hp
  refine List.any_eq_true.2 ⟨contract, ?_, Contract.contains_iff.2 ((spans a.date).1 inside).2⟩
  exact profile ▸ List.mem_of_find?_eq_some along.on

end ScanContext

end Entitlement
