import Entitlement.Proofs.Scan.Verdicts
import Entitlement.Proofs.Scan.Writing

/-!
Repairs that do not meddle with each other. If every replacing code serves one category and nothing else,
a repair changes only the chains that share a period with the one it was made for, and these are all the
same chain. So a visit leaves every verdict as it is, settles its own chain for good, and unsettles none.
-/

namespace Entitlement

namespace ScanScope

variable {scope : ScanScope}

/-- Ledgers with the same records of a kind have the same records of that kind in a reach. -/
theorem gathered_filter {before after : Ledger} {keep : Absence → Bool}
    (same : before.records.filter keep = after.records.filter keep) (laid : Chain) :
    (scope.gathered laid before).filter keep = (scope.gathered laid after).filter keep := by
  unfold gathered
  cases laid.reach with
  | none => rfl
  | some range =>
    unfold Ledger.records at same
    simp only [Option.elim_some, Ledger.absencesIn, Absence.inOrder_filter]
    rw [List.filter_comm, same, List.filter_comm]

end ScanScope

namespace ScanContext

/-- Configurations whose repairs keep apart: besides being coherent, every replacing code replaces in one
category, and is neither taken nor completes in any. -/
structure Separated (context : ScanContext) (scope : ScanScope) : Prop extends
    Coherent context scope where
  owned : ∀ c ∈ context.rules.all, ∀ c' ∈ context.rules.all, ∀ code, c.replaces code = true →
    c'.replaces code = true → c = c'
  spared : ∀ c ∈ context.rules.all, ∀ code, c.replaces code = true → ∀ c' ∈ context.rules.all,
    c'.takes code = false ∧ c'.completes code = false

def Quiet (context : ScanContext) (scope : ScanScope) (record : Absence) (name : CategoryName)
    (ledger : Ledger) : Prop :=
  ∀ chain, context.chainAround scope record name ledger = .ok chain →
    chain.repair context.rules = .ok ⟨chain.person, [], []⟩

end ScanContext

namespace Chain

def Meets (a b : Chain) : Prop :=
  ∃ p ∈ a.periods, ∃ q ∈ b.periods, p.category = q.category ∧ ∃ d ∈ p.range, d ∈ q.range

/-- A chain without periods has nothing to repair. -/
theorem repair_of_nil {rules : RuleTree} {chain : Chain} (h : chain.periods = []) :
    chain.repair rules = .ok ⟨chain.person, [], []⟩ := by
  apply repair_of_kept
  intro s hs
  rw [h] at hs
  exact absurd hs List.not_mem_nil

end Chain

namespace ScanContext

variable {context : ScanContext} {scope : ScanScope} (separated : context.Separated scope)
  (indexed : context.rules.Indexed)

include separated indexed

/-- The categories of a chain keep their replacing codes apart. -/
theorem separate_of_laid {pivot : Pivot} {laid : Chain}
    (h : Chain.layOut context.rules pivot = .ok laid) (nonempty : laid.periods ≠ []) :
    Separate context.rules laid.links := by
  obtain ⟨contract, first, along⟩ := Chain.laidAlong indexed.keyed separated.uniform h nonempty
  have known {c : Category} (hc : c ∈ laid.links) : c ∈ context.rules.all := by
    obtain ⟨p, hp, rfl⟩ := List.mem_map.1 hc
    exact Chain.category_mem indexed.keyed separated.uniform h hp
  have distinct : laid.links.Nodup :=
    (List.Nodup.of_map _ along.leads.nodup).sublist (Chain.layPeriods_sublist along.periods)
  refine ⟨distinct.imp_of_mem fun {c c'} hc hc' different code replaces => ?_,
    fun {c code} hc replaces c' hc' => ?_, fun {c code} hc replaces c' hc' source month origin _ found => ?_⟩
  · refine Bool.eq_false_iff.2 fun also => different ?_
    exact separated.owned c (known hc) c' (known hc') code replaces also
  · exact separated.spared c (known hc) code replaces c' (known hc')
  · exact (separated.spared c (known hc) code replaces origin (RuleTree.category?_mem found)).1

/-- Around a record the chain that was repaired is built again with the same findings, and has nothing
left to repair; the repair has changed only records that it may touch. -/
theorem chainAround_repaired {record : Absence} {name : CategoryName} {ledger after : Ledger}
    (sound : ledger.Sound) {chain : Chain}
    (built : context.chainAround scope record name ledger = .ok chain) (nonempty : chain.periods ≠ [])
    {repair : Repair} {effect : RepairEffect} (planned : chain.repair context.rules = .ok repair)
    (carried : Ledger.carryOut repair ledger = .ok effect after) :
    chain.Amends ledger after (chain.removals.map (·.absence)) effect.inserted ∧
      (∀ a ∈ effect.inserted, ∀ b ∈ effect.inserted, a.Doubles b → a = b) ∧ ∃ chain',
      context.chainAround scope record name after = .ok chain' ∧
        chain'.repair context.rules = .ok ⟨chain'.person, [], []⟩ ∧
        chain'.findings = chain.findings ∧ chain'.childIsMissing = chain.childIsMissing := by
  obtain ⟨laid, hlaid, filled⟩ := chainAround_ok built
  obtain ⟨own, -, fresh⟩ := Chain.layOut_fresh hlaid
  obtain ⟨person, places, settled⟩ := Chain.fill_settled fresh filled
  have mine := person_of_chainAround built
  rw [← person] at settled
  have laidNonempty : laid.periods ≠ [] := fun none =>
    nonempty (List.map_eq_nil_iff.1 (places.trans (congrArg (List.map Period.place) none)))
  have separate : Separate context.rules chain.links :=
    Chain.links_of_places places ▸ separate_of_laid separated indexed hlaid laidNonempty
  have reached {p : Period} (hp : p ∈ chain.periods) {d : Date} (hd : d ∈ p.range) :
      ∃ range, laid.reach = some range ∧ d ∈ range := by
    obtain ⟨q, hq, place⟩ := Chain.mem_of_places places hp
    exact Chain.mem_reach (.inl ⟨q, hq, (Prod.mk.inj place).2 ▸ hd⟩)
  have amends := (chainAround_amends sound built planned carried).2
  obtain ⟨plans, -, done⟩ := Chain.carriedOut_of_ledger sound planned carried
  have gathered (l : Ledger) (a : Absence) : a ∈ scope.gathered laid l ↔ a ∈ l.records ∧
      a.person = scope.person ∧ ∃ range, laid.reach = some range ∧ a.date ∈ range :=
    ScanScope.mem_gathered
  have done := done.within (gathered ledger) (gathered after) fun addition hadd a own date => by
      obtain ⟨⟨t, day⟩, hday, asks⟩ := (Chain.mem_additions plans).1 hadd
      obtain ⟨ht, inside, -⟩ := Chain.covers_of_repairDays settled hday
      obtain ⟨required, -, -, dated, -⟩ := Chain.addition?_ok asks
      exact ⟨own.trans mine, reached ht (date.trans dated ▸ inside)⟩
  obtain ⟨chain', built', empty, findings, -⟩ :=
    Chain.fill_repaired fresh filled separate plans done (ScanScope.gathered_filter amends.plain laid)
  obtain ⟨person', missing', -⟩ := Chain.fill_keeps built'
  refine ⟨amends, fun a ha b hb => Chain.sole_of_carryOut sound planned carried separate.once settled ha hb,
    chain', ?_, ?_, findings, missing'.trans (Chain.fill_keeps filled).2.1.symm⟩
  · rw [chainAround_eq, hlaid]
    exact built'
  · rw [empty, person, person']

section Meeting

variable {record other : Absence} {name n : CategoryName} {laid laid' : Chain}
  (here : Chain.layOut context.rules (scope.pivot name record.date) = .ok laid)
  (there : Chain.layOut context.rules (scope.pivot n other.date) = .ok laid')

include here there

/-- Chains that meet are the same but for the category and the date they were built around. -/
theorem chainAround_met (meets : laid.Meets laid') : ∃ name' date', ∀ ledger,
    (context.chainAround scope record name ledger).toOption.map (·.moved name' date') =
      (context.chainAround scope other n ledger).toOption.map (·.moved name' date') := by
  obtain ⟨p, hp, q, hq, same, d, inP, inQ⟩ := meets
  refine ⟨p.name, d, fun ledger => ?_⟩
  let between : Absence := { record with date := d }
  have atP : between.date ∈ p.range := inP
  have atQ : between.date ∈ q.range := inQ
  have first :=
    chainAround_moved indexed.keyed separated.uniform separated.disjoint here hp hp atP ledger
  have second :=
    chainAround_moved indexed.keyed separated.uniform separated.disjoint there hq hq atQ ledger
  have named : p.name = q.name := congrArg Category.name same
  rw [← first, named, second]

theorem verdict_met (meets : laid.Meets laid') (ledger : Ledger) :
    context.verdict scope record name ledger = context.verdict scope other n ledger := by
  obtain ⟨name', date', same⟩ := chainAround_met separated indexed here there meets
  have := congrArg (Option.map fun chain : Chain => (chain.childIsMissing, chain.findings)) (same ledger)
  rw [Option.map_map, Option.map_map] at this
  exact this

theorem Quiet.met {ledger : Ledger} (quiet : context.Quiet scope record name ledger)
    (meets : laid.Meets laid') : context.Quiet scope other n ledger := by
  obtain ⟨name', date', same⟩ := chainAround_met separated indexed here there meets
  intro chain built
  have same := same ledger
  rw [built] at same
  obtain ⟨chain₀, found, moved⟩ := Option.map_eq_some_iff.1 same
  have built₀ : context.chainAround scope record name ledger = .ok chain₀ := by
    cases around : context.chainAround scope record name ledger with
    | error error =>
      rw [around] at found
      cases found
    | ok c =>
      rw [around] at found
      cases found
      rfl
  have person : chain₀.person = chain.person := congrArg (·.person) moved
  calc chain.repair context.rules
      = (chain.moved name' date').repair context.rules := rfl
    _ = (chain₀.moved name' date').repair context.rules := by rw [moved]
    _ = chain₀.repair context.rules := rfl
    _ = .ok ⟨chain.person, [], []⟩ := by rw [quiet chain₀ built₀, person]

/-- A repair changes nothing about a chain that does not meet the repaired one. -/
theorem chainAround_unmet {chain : Chain} {ledger after : Ledger} {removed : List AbsenceId}
    {inserted : List Absence}
    (places : chain.periods.map Period.place = laid.periods.map Period.place)
    (amends : chain.Amends ledger after removed inserted) (apart : ¬ laid.Meets laid') :
    context.chainAround scope other n after = context.chainAround scope other n ledger := by
  have touched {a : Absence} (h : (chain.periods.any fun p => p.replaces a) = true) :
      (laid'.periods.any fun q => q.concerns a) = false ∧
        ∀ c ∈ context.rules.all, c.takes a.code = false := by
    obtain ⟨s, hs, replaces⟩ := List.any_eq_true.1 h
    obtain ⟨p, hp, place⟩ := Chain.mem_of_places places hs
    rw [← Period.replaces_congr place, Period.replaces, Bool.and_eq_true] at replaces
    have spared := separated.spared p.category (Chain.category_mem indexed.keyed separated.uniform here hp) a.code replaces.2
    refine ⟨List.any_eq_false.2 fun q hq concerned => ?_, fun c hc => (spared c hc).1⟩
    have known := Chain.category_mem indexed.keyed separated.uniform there hq
    obtain ⟨taken, completes⟩ := spared q.category known
    simp only [Period.concerns, Period.takes, Period.completes, taken, completes, Bool.and_false,
      Bool.false_or, Period.replaces, Bool.and_eq_true] at concerned
    refine apart ⟨p, hp, q, hq, ?_, a.date, Chain.mem_range_of_covers replaces.1,
      Chain.mem_range_of_covers concerned.1⟩
    exact separated.owned _ (Chain.category_mem indexed.keyed separated.uniform here hp) _ known a.code replaces.2 concerned.2
  let untouched (a : Absence) : Bool := !chain.periods.any fun p => p.replaces a
  have filtered : (scope.gathered laid' ledger).filter untouched =
      (scope.gathered laid' after).filter untouched := by
    refine ScanScope.gathered_filter (amends.filter_records fun a replaceable => ?_) laid'
    obtain ⟨-, p, hp, -, replaces⟩ := replaceable
    have replaced : (chain.periods.any fun p => p.replaces a) = true :=
      List.any_eq_true.2 ⟨p, hp, replaces⟩
    simp only [untouched, replaced, Bool.not_true]
  have whole (records : List Absence) :
      (Chain.concerned laid'.periods laid'.person records).filter untouched =
        Chain.concerned laid'.periods laid'.person records := by
    apply List.filter_eq_self.2
    intro a ha
    obtain ⟨-, -, concerned⟩ := Chain.mem_concerned.1 ha
    rw [Bool.not_eq_true']
    apply Bool.eq_false_iff.2
    intro h
    exact absurd (List.any_eq_true.2 concerned) (Bool.eq_false_iff.1 (touched h).1)
  rw [chainAround_eq, chainAround_eq, there]
  refine Chain.fill_congr ?_ fun q hq link carries => ?_
  · rw [← whole (scope.gathered laid' after), ← whole (scope.gathered laid' ledger),
      Chain.concerned_plain, Chain.concerned_plain, filtered]
  · refine link.history_congr_filter (fun a kept => ?_) _ _ filtered.symm
    obtain ⟨source, month, -, known⟩ := Chain.carryOver_eq_some carries
    rw [Bool.not_eq_false'] at kept
    exact (touched kept).2 link.source (RuleTree.category?_mem known)

end Meeting

/-- After a visit its own chain has nothing to repair. -/
theorem Visited.quiet {record : Absence} {name : CategoryName} {ledger after : Ledger}
    {result : VisitResult} (visited : Visited context scope record name ledger result after)
    (sound : ledger.Sound) : context.Quiet scope record name after := by
  intro chain built
  cases visited with
  | aborted failed =>
    rw [built] at failed
    cases failed
  | childMissing built' missing =>
    rw [built] at built'
    cases built'
    obtain ⟨laid, hlaid, filled⟩ := chainAround_ok built
    obtain ⟨-, missing', places⟩ := Chain.fill_keeps filled
    rw [Chain.layOut_childMissing hlaid (missing'.symm.trans missing), List.map_nil,
      List.map_eq_nil_iff] at places
    exact Chain.repair_of_nil places
  | noPeriods built' _ none =>
    rw [built] at built'
    cases built'
    exact Chain.repair_of_nil none
  | repaired built' _ nonempty planned carried =>
    obtain ⟨-, -, chain', again, empty, -⟩ :=
      chainAround_repaired separated indexed sound built' nonempty planned carried
    rw [built] at again
    cases again
    exact empty

/-- A visit leaves every verdict as it is, and every chain that has nothing to repair. -/
theorem Visited.steady {record : Absence} {name : CategoryName} {ledger after : Ledger}
    {result : VisitResult} (visited : Visited context scope record name ledger result after)
    (sound : ledger.Sound) (other : Absence) (n : CategoryName) :
    context.verdict scope other n after = context.verdict scope other n ledger ∧
      (context.Quiet scope other n ledger → context.Quiet scope other n after) := by
  have settles := visited.quiet separated indexed sound
  have unchanged (same : context.chainAround scope other n after =
      context.chainAround scope other n ledger) :
      context.verdict scope other n after = context.verdict scope other n ledger ∧
        (context.Quiet scope other n ledger → context.Quiet scope other n after) := by
    unfold verdict Quiet
    rw [same]
    exact ⟨rfl, id⟩
  cases visited with
  | aborted _ => exact unchanged rfl
  | childMissing _ _ => exact unchanged rfl
  | noPeriods _ _ _ => exact unchanged rfl
  | repaired built _ nonempty planned carried =>
    obtain ⟨amends, -, chain', built', -, findings, missing⟩ :=
      chainAround_repaired separated indexed sound built nonempty planned carried
    obtain ⟨laid, here, filled⟩ := chainAround_ok built
    cases there : Chain.layOut context.rules (scope.pivot n other.date) with
    | error error =>
      apply unchanged
      rw [chainAround_eq, chainAround_eq, there]
      rfl
    | ok laid' =>
      by_cases meets : laid.Meets laid'
      · refine ⟨?_, fun _ => settles.met separated indexed here there meets⟩
        rw [← verdict_met separated indexed here there meets,
          ← verdict_met separated indexed here there meets, verdict_of_chain built,
          verdict_of_chain built', findings, missing]
      · exact unchanged (chainAround_unmet separated indexed here there (Chain.fill_keeps filled).2.2
          amends meets)

/-- Visits leave every verdict as it is, and every chain that has nothing to repair. -/
theorem Visits.steady {ledger after : Ledger} {visits : List Visit}
    (run : Visits context scope ledger visits after) (sound : ledger.Sound) (other : Absence)
    (n : CategoryName) : context.verdict scope other n after = context.verdict scope other n ledger ∧
      (context.Quiet scope other n ledger → context.Quiet scope other n after) := by
  induction run with
  | done => exact ⟨rfl, id⟩
  | step first _ ih =>
    obtain ⟨verdict, quiet⟩ := first.steady separated indexed sound other n
    obtain ⟨verdict', quiet'⟩ := ih (first.later sound).sound
    exact ⟨verdict'.trans verdict, quiet' ∘ quiet⟩

end ScanContext

end Entitlement
