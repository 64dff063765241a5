import Entitlement.Proofs.Chain.Bringing
import Entitlement.Proofs.Ledger.Records
import Entitlement.Proofs.Scan.Agenda
import Entitlement.Scan.Visit

/-!
The visits of a scan as steps on the ledger. Every visit is made at a pending pair of a covered record;
in the end each pending pair of a covered record has been visited, or settled by the visit of another.
-/

namespace Entitlement

namespace ScanContext

/-- How a visit at a record and a category may end, with the ledger before and after it. -/
inductive Visited (context : ScanContext) (scope : ScanScope) (record : Absence)
    (name : CategoryName) : Ledger → VisitResult → Ledger → Prop
  | aborted {ledger : Ledger} {error : CriticalError} :
      context.chainAround scope record name ledger = .error error →
      Visited context scope record name ledger (.aborted error) ledger
  | childMissing {ledger : Ledger} {chain : Chain} :
      context.chainAround scope record name ledger = .ok chain → chain.childIsMissing = true →
      Visited context scope record name ledger .childMissing ledger
  | noPeriods {ledger : Ledger} {chain : Chain} :
      context.chainAround scope record name ledger = .ok chain → chain.childIsMissing = false →
      chain.periods = [] → Visited context scope record name ledger .noPeriods ledger
  | repaired {ledger after : Ledger} {chain : Chain} {repair : Repair} {effect : RepairEffect} :
      context.chainAround scope record name ledger = .ok chain → chain.childIsMissing = false →
      chain.periods ≠ [] → chain.repair context.rules = .ok repair →
      Ledger.carryOut repair ledger = .ok effect after →
      Visited context scope record name ledger (.repaired chain effect) after

variable {context : ScanContext} {scope : ScanScope}

theorem visit_ok {record : Absence} {name : CategoryName} {ledger after : Ledger} {visit : Visit}
    (h : context.visit scope record name ledger = .ok visit after) :
    visit.record = record ∧ visit.category = name ∧
      Visited context scope record name ledger visit.result after := by
  unfold ScanContext.visit at h
  cases built : context.chainAround scope record name ledger with
  | error error =>
    rw [built] at h
    cases h
    exact ⟨rfl, rfl, .aborted built⟩
  | ok chain =>
    simp only [built] at h
    split at h
    · next missing =>
      cases h
      exact ⟨rfl, rfl, .childMissing built missing⟩
    · next missing =>
      have missing := Bool.eq_false_iff.2 missing
      split at h
      · next empty =>
        cases h
        exact ⟨rfl, rfl, .noPeriods built missing (List.isEmpty_iff.1 empty)⟩
      · next nonempty =>
        cases planned : chain.repair context.rules with
        | error error =>
          rw [planned] at h
          cases h
        | ok repair =>
          simp only [planned] at h
          split at h
          · cases h
          · cases h
          · next carried =>
            cases h
            exact ⟨rfl, rfl, .repaired built missing (mt List.isEmpty_iff.2 nonempty) planned carried⟩

/-- A visit leaves the ledger alone or carries a repair out on it. -/
theorem Visited.later {record : Absence} {name : CategoryName} {ledger after : Ledger}
    {result : VisitResult} (h : Visited context scope record name ledger result after)
    (sound : ledger.Sound) : ledger.Later after := by
  cases h with
  | aborted _ => exact sound.later
  | childMissing _ _ => exact sound.later
  | noPeriods _ _ _ => exact sound.later
  | repaired _ _ _ _ carried =>
    obtain ⟨sound', nextId, records, made⟩ := Ledger.carryOut_ok sound carried
    refine ⟨sound', nextId, fun {a} ha => ?_⟩
    rw [records] at ha
    rcases List.mem_append.1 ha with old | new
    · exact .inl (List.mem_filter.1 old).1
    · obtain ⟨addition, -, fresh, -⟩ := Chain.forall₂_mem_right made new
      exact .inr fresh

theorem visitAll_none {agenda next : Agenda} (h : agenda.nextPair = (none, next)) :
    context.visitAll scope agenda = pure [] := by
  rw [visitAll]
  split
  · rfl
  · next found => simp [h] at found

theorem visitAll_some {agenda next : Agenda} {record : Absence} {name : CategoryName}
    (h : agenda.nextPair = (some (record, name), next)) :
    context.visitAll scope agenda =
      if scope.isCovered record then do
        let visit ← context.visit scope record name
        let rest ← context.visitAll scope
          ((next.strike record.id name).strikePairs visit.settled)
        return visit :: rest
      else context.visitAll scope (next.strikeAll record.id) := by
  rw [visitAll]
  split
  · next found => simp [h] at found
  · next found =>
    rw [h] at found
    cases found
    rfl

/-- A visit at the front of an agenda, and the visits after it. -/
theorem visitAll_of_visit {agenda next : Agenda} {record : Absence} {name : CategoryName}
    (front : agenda.nextPair = (some (record, name), next)) (covered : scope.isCovered record = true)
    {ledger between after : Ledger} {visit : Visit} {rest : List Visit}
    (first : context.visit scope record name ledger = .ok visit between)
    (later : context.visitAll scope ((next.strike record.id name).strikePairs visit.settled) between =
      .ok rest after) : context.visitAll scope agenda ledger = .ok (visit :: rest) after := by
  rw [visitAll_some front, if_pos covered, LedgerAction.bind_of_ok first, LedgerAction.bind_of_ok later]
  rfl

inductive Visits (context : ScanContext) (scope : ScanScope) : Ledger → List Visit → Ledger → Prop
  | done {ledger : Ledger} : Visits context scope ledger [] ledger
  | step {ledger between after : Ledger} {visit : Visit} {rest : List Visit} :
      Visited context scope visit.record visit.category ledger visit.result between →
      Visits context scope between rest after → Visits context scope ledger (visit :: rest) after

/-- Every visit of a list has a ledger before it and one after it. -/
theorem Visits.split {ledger after : Ledger} {visits : List Visit}
    (h : Visits context scope ledger visits after) {visit : Visit} (hv : visit ∈ visits) :
    ∃ before between first rest, Visits context scope ledger first before ∧
      Visited context scope visit.record visit.category before visit.result between ∧
        Visits context scope between rest after := by
  induction h with
  | done => exact absurd hv List.not_mem_nil
  | @step ledger between after made rest first later ih =>
    rcases List.mem_cons.1 hv with rfl | hv
    · exact ⟨ledger, between, [], rest, .done, first, later⟩
    · obtain ⟨before, middle, others, rest, earlier, here, behind⟩ := ih hv
      exact ⟨before, middle, made :: others, rest, .step first earlier, here, behind⟩

/-- What every visit preserves, a list of visits preserves. -/
theorem Visits.preserves {P : Ledger → Prop}
    (step : ∀ record name ledger result after, Visited context scope record name ledger result after →
      P ledger → P after) {ledger after : Ledger} {visits : List Visit}
    (h : Visits context scope ledger visits after) (holds : P ledger) : P after := by
  induction h with
  | done => exact holds
  | step first _ ih => exact ih (step _ _ _ _ _ first holds)

theorem Visits.later {ledger after : Ledger} {visits : List Visit}
    (h : Visits context scope ledger visits after) (sound : ledger.Sound) : ledger.Later after := by
  refine h.preserves (P := ledger.Later) (fun record name before result after visited earlier => ?_)
    sound.later
  exact earlier.trans (visited.later earlier.sound)

structure Covers (context : ScanContext) (scope : ScanScope) (agenda : Agenda) (ledger : Ledger)
    (visits : List Visit) (after : Ledger) : Prop where
  run : Visits context scope ledger visits after
  pending {visit : Visit} : visit ∈ visits → visit.record ∈ agenda.rest ∧
    visit.category ∈ agenda.pendingFor visit.record.id ∧ scope.isCovered visit.record = true
  covers {a : Absence} {name : CategoryName} : a ∈ agenda.rest → name ∈ agenda.pendingFor a.id →
    scope.isCovered a = true → ∃ visit ∈ visits,
      (visit.record = a ∧ visit.category = name) ∨ (a.id, name) ∈ visit.settled

section Covers

variable {agenda : Agenda} (distinct : ∀ a ∈ agenda.rest, ∀ b ∈ agenda.rest, a.id = b.id → a = b)
  {ledger after : Ledger} {visits : List Visit}

include distinct

/-- A visit at a pending pair covers an agenda together with those that cover it without what is settled. -/
theorem Covers.visited {visit : Visit} {between : Ledger} (inside : visit.record ∈ agenda.rest)
    (pending : visit.category ∈ agenda.pendingFor visit.record.id)
    (covered : scope.isCovered visit.record = true)
    (made : Visited context scope visit.record visit.category ledger visit.result between)
    (later : Covers context scope ((agenda.advance.strike visit.record.id visit.category).strikePairs
      visit.settled) between visits after) :
    Covers context scope agenda ledger (visit :: visits) after := by
  have left : ((agenda.advance.strike visit.record.id visit.category).strikePairs
      visit.settled).rest = agenda.advance.rest := Agenda.rest_strikePairs _ _
  have struck {id : AbsenceId} {n : CategoryName} :
      n ∈ ((agenda.advance.strike visit.record.id visit.category).strikePairs
          visit.settled).pendingFor id ↔
        (n ∈ agenda.pendingFor id ∧ ¬ (id = visit.record.id ∧ n = visit.category)) ∧
          (id, n) ∉ visit.settled :=
    Agenda.mem_strikePairs.trans (and_congr_left fun _ => Agenda.mem_strike)
  refine ⟨.step made later.run, fun hv => ?_, fun {a n} ha wanted coveredA => ?_⟩
  · rcases List.mem_cons.1 hv with rfl | hv
    · exact ⟨inside, pending, covered⟩
    · obtain ⟨mem, still, covered⟩ := later.pending hv
      rw [left] at mem
      exact ⟨Agenda.mem_rest_of_advance mem, (struck.1 still).1.1, covered⟩
  · by_cases here : a.id = visit.record.id ∧ n = visit.category
    · exact ⟨visit, List.mem_cons_self, .inl ⟨(distinct a ha _ inside here.1).symm, here.2.symm⟩⟩
    · by_cases settled : (a.id, n) ∈ visit.settled
      · exact ⟨visit, List.mem_cons_self, .inr settled⟩
      · have stays := Agenda.mem_rest_advance ha wanted
        rw [← left] at stays
        obtain ⟨other, hv, done⟩ := later.covers stays (struck.2 ⟨⟨wanted, here⟩, settled⟩) coveredA
        exact ⟨other, List.mem_cons_of_mem _ hv, done⟩

/-- Visits that cover an agenda without a record outside every contract cover it with that record. -/
theorem Covers.passed {record : Absence} (inside : record ∈ agenda.rest)
    (uncovered : ¬ scope.isCovered record = true)
    (later : Covers context scope (agenda.advance.strikeAll record.id) ledger visits after) :
    Covers context scope agenda ledger visits after := by
  refine ⟨later.run, fun hv => ?_, fun {a n} ha wanted coveredA => ?_⟩
  · obtain ⟨mem, still, covered⟩ := later.pending hv
    exact ⟨Agenda.mem_rest_of_advance mem, (Agenda.mem_strikeAll.1 still).1, covered⟩
  · have other : a.id ≠ record.id := by
      intro same
      rw [distinct a ha record inside same] at coveredA
      exact uncovered coveredA
    exact later.covers (Agenda.mem_rest_advance ha wanted) (Agenda.mem_strikeAll.2 ⟨wanted, other⟩) coveredA

/-- The visits of an agenda are made at pending pairs of covered records, and leave none of these
without a visit that settles it. -/
theorem visitAll_covers (h : context.visitAll scope agenda ledger = .ok visits after) :
    Covers context scope agenda ledger visits after := by
  induction agenda using visitAll.induct scope generalizing ledger visits with
  | case1 agenda next front =>
    rw [visitAll_none front] at h
    cases h
    exact ⟨.done, fun hv => absurd hv List.not_mem_nil,
      fun ha pending => absurd pending (Agenda.nextPair_none front ha _)⟩
  | case2 agenda record name next front covered ih =>
    rw [visitAll_some front, if_pos covered] at h
    obtain ⟨visit, between, first, h⟩ := LedgerAction.bind_ok h
    obtain ⟨rest, _, later, h⟩ := LedgerAction.bind_ok h
    cases h
    obtain ⟨rfl, rfl, made⟩ := visit_ok first
    obtain ⟨rfl, inside, pending⟩ := Agenda.nextPair_some front
    refine Covers.visited distinct inside pending covered made (ih visit (fun a ha b hb => ?_) later)
    rw [Agenda.rest_strikePairs] at ha hb
    exact distinct a (Agenda.mem_rest_of_advance ha) b (Agenda.mem_rest_of_advance hb)
  | case3 agenda record name next front uncovered ih =>
    rw [visitAll_some front, if_neg uncovered] at h
    obtain ⟨rfl, inside, -⟩ := Agenda.nextPair_some front
    refine Covers.passed distinct inside uncovered (ih (fun a ha b hb => ?_) h)
    exact distinct a (Agenda.mem_rest_of_advance ha) b (Agenda.mem_rest_of_advance hb)

end Covers

end ScanContext

end Entitlement
