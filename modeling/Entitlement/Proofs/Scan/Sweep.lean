import Entitlement.Proofs.Scan.Phases

/-!
What the loop of a scan checks. A pair is struck off before its chain is built and nothing is ever put back, so
no pair is the pivot of two chains; and a pair of a record under contract is struck off only as a pivot, or
with the participants of a repaired chain. When the loop comes to reconcile, nothing is pending.
-/

namespace Entitlement

/-- An agenda that has come from another: the same records, of which those with something pending are still to
come, and nothing pending that was not before. -/
structure Agenda.Within (source agenda : Agenda) : Prop where
  records : agenda.records = source.records
  rest {a : Absence} : a ∈ agenda.rest → a ∈ source.records
  waits {a : Absence} {name : CategoryName} : a ∈ source.records → name ∈ agenda.pendingFor a.id →
    a ∈ agenda.rest
  pending {id : AbsenceId} {name : CategoryName} : name ∈ agenda.pendingFor id →
    name ∈ source.pendingFor id

namespace Agenda.Within

variable {source agenda : Agenda}

theorem advance (within : source.Within agenda) : source.Within agenda.advance where
  records := within.records
  rest ha := within.rest (mem_rest_of_advance ha)
  waits ha pending := mem_rest_advance (within.waits ha pending) pending
  pending h := within.pending h

/-- Striking pairs off leaves an agenda that has come from the same. -/
theorem of_struck (within : source.Within agenda) {struck : Agenda}
    (records : struck.records = agenda.records) (rest : struck.rest = agenda.rest)
    (fewer : ∀ id name, name ∈ struck.pendingFor id → name ∈ agenda.pendingFor id) :
    source.Within struck where
  records := records.trans within.records
  rest ha := within.rest (rest ▸ ha)
  waits ha pending := rest ▸ within.waits ha (fewer _ _ pending)
  pending h := within.pending (fewer _ _ h)

theorem strike (within : source.Within agenda) (id : AbsenceId) (name : CategoryName) :
    source.Within (agenda.strike id name) :=
  within.of_struck rfl rfl fun _ _ h => (mem_strike.1 h).1

theorem strikeAll (within : source.Within agenda) (id : AbsenceId) :
    source.Within (agenda.strikeAll id) :=
  within.of_struck rfl rfl fun _ _ h => (mem_strikeAll.1 h).1

theorem strikePairs (within : source.Within agenda) (pairs : List (AbsenceId × CategoryName)) :
    source.Within (agenda.strikePairs pairs) :=
  within.of_struck (ScanContext.records_strikePairs agenda pairs) (rest_strikePairs agenda pairs)
    fun _ _ h => (mem_strikePairs.1 h).1

end Agenda.Within

namespace ScanState

def pivot? (state : ScanState) : Option (AbsenceId × CategoryName) :=
  match state.phase with
  | .building record category => some (record.id, category)
  | _ => none

/-- Whether a chain is repaired in a state that the record takes part in and that has a period of the
category. -/
def Settles (state : ScanState) (absence : AbsenceId) (category : CategoryName) : Prop :=
  match state.phase with
  | .repairing _ chain => absence ∈ chain.participants ∧ category ∈ chain.categories
  | _ => False

theorem pivot?_selecting {state : ScanState} (phase : state.phase = .selecting) : state.pivot? = none := by
  simp only [pivot?, phase]

theorem pivot?_building {state : ScanState} {record : Absence} {category : CategoryName}
    (phase : state.phase = .building record category) : state.pivot? = some (record.id, category) := by
  simp only [pivot?, phase]

theorem pivot?_repairing {state : ScanState} {record : Absence} {chain : Chain}
    (phase : state.phase = .repairing record chain) : state.pivot? = none := by
  simp only [pivot?, phase]

def pivots (states : List ScanState) : List (AbsenceId × CategoryName) :=
  states.filterMap (·.pivot?)

theorem mem_pivots_append {states : List ScanState} {state : ScanState}
    {pair : AbsenceId × CategoryName} :
    pair ∈ pivots (states ++ [state]) ↔ pair ∈ pivots states ∨ state.pivot? = some pair := by
  simp only [pivots, List.mem_filterMap, List.mem_append, List.mem_singleton]
  constructor
  · rintro ⟨s, earlier | rfl, found⟩
    · exact .inl ⟨s, earlier, found⟩
    · exact .inr found
  · rintro (⟨s, earlier, found⟩ | found)
    · exact ⟨s, .inl earlier, found⟩
    · exact ⟨state, .inr rfl, found⟩

end ScanState

namespace ScanContext

open ScanState

variable {context : ScanContext} {scope : ScanScope}

/-- What is known in a phase: the pair of a chain to build is pending and its record under contract, a chain
to repair was built for its record, and nothing is pending when the annotations are reconciled. -/
def Fits (context : ScanContext) (scope : ScanScope) (state : ScanState) : Prop :=
  match state.phase with
  | .selecting => True
  | .building record category => record ∈ (context.agenda scope).records ∧
      scope.isCovered record = true ∧ category ∈ state.agenda.pendingFor record.id
  | .repairing record chain =>
    context.chainAround scope record chain.category state.ledger = .ok chain ∧
      chain.childIsMissing = false ∧ chain.periods ≠ []
  | .reconciling => ∀ a ∈ (context.agenda scope).records, ∀ name, name ∉ state.agenda.pendingFor a.id

/-- What holds after turns in some states. -/
structure Underway (context : ScanContext) (scope : ScanScope) (passed : List ScanState)
    (state : ScanState) : Prop where
  fits : context.Fits scope state
  within : (context.agenda scope).Within state.agenda
  outside {a : Absence} : a ∈ (context.agenda scope).records →
    state.findings.contains a.id .outOfContract = !scope.isCovered a
  once : (pivots passed).Nodup
  struck {pair : AbsenceId × CategoryName} : pair ∈ pivots passed →
    pair.2 ∉ state.agenda.pendingFor pair.1
  sites {earlier : ScanState} {record : Absence} {category : CategoryName} : earlier ∈ passed →
    earlier.phase = .building record category → record ∈ (context.agenda scope).records ∧
      scope.isCovered record = true ∧ category ∈ (context.agenda scope).pendingFor record.id
  covers {a : Absence} {name : CategoryName} : a ∈ (context.agenda scope).records →
    scope.isCovered a = true → name ∈ (context.agenda scope).pendingFor a.id →
    name ∈ state.agenda.pendingFor a.id ∨ (a.id, name) ∈ pivots passed ∨
      ∃ earlier ∈ passed, earlier.Settles a.id name

/-- A visit without a chain settles no other pair. -/
theorem settled_of_chain?_none {visit : Visit} (h : visit.chain? = none) : visit.settled = [] := by
  unfold Visit.chain? at h
  unfold Visit.settled
  cases result : visit.result with
  | repaired chain effect =>
    rw [result] at h
    cases h
  | childMissing | noPeriods | aborted _ => rfl

section Turns

variable {passed : List ScanState} {state state' : ScanState}
  (underway : Underway context scope passed state)

include underway

/-- A turn that strikes pairs off, those of records under contract only as the pivot or as settled. -/
theorem Underway.turned (fits : context.Fits scope state')
    (within : (context.agenda scope).Within state'.agenda)
    (fewer : ∀ id name, name ∈ state'.agenda.pendingFor id → name ∈ state.agenda.pendingFor id)
    (outside : ∀ id, state'.findings.contains id .outOfContract =
      state.findings.contains id .outOfContract)
    (gone : ∀ pair, state.pivot? = some pair → pair.2 ∉ state'.agenda.pendingFor pair.1)
    (left : ∀ a ∈ (context.agenda scope).records, scope.isCovered a = true →
      ∀ name ∈ state.agenda.pendingFor a.id, name ∈ state'.agenda.pendingFor a.id ∨
        state.pivot? = some (a.id, name) ∨ state.Settles a.id name) :
    Underway context scope (passed ++ [state]) state' where
  fits := fits
  within := within
  outside ha := (outside _).trans (underway.outside ha)
  once := by
    rw [pivots, List.filterMap_append, List.nodup_append]
    refine ⟨underway.once, ?_, fun pair old pair' new same => ?_⟩
    · rw [List.filterMap_cons]
      cases state.pivot? with
      | none => exact List.nodup_nil
      | some pair => exact List.nodup_singleton pair
    · subst same
      obtain ⟨s, hs, here⟩ := List.mem_filterMap.1 new
      rw [List.mem_singleton.1 hs] at here
      have known := underway.fits
      unfold pivot? at here
      unfold Fits at known
      cases phase : state.phase with
      | building record category =>
        rw [phase] at here known
        cases here
        exact underway.struck old known.2.2
      | selecting | repairing _ _ | reconciling =>
        rw [phase] at here
        cases here
  struck h pending := by
    rcases mem_pivots_append.1 h with old | here
    · exact underway.struck old (fewer _ _ pending)
    · exact gone _ here pending
  sites {earlier record category} h phase := by
    rcases List.mem_append.1 h with old | here
    · exact underway.sites old phase
    · rw [List.mem_singleton.1 here] at phase
      have known := underway.fits
      unfold Fits at known
      rw [phase] at known
      exact ⟨known.1, known.2.1, underway.within.pending known.2.2⟩
  covers {a name} ha covered wanted := by
    rcases underway.covers ha covered wanted with pending | built | ⟨earlier, he, settles⟩
    · rcases left a ha covered name pending with still | here | settles
      · exact .inl still
      · exact .inr (.inl (mem_pivots_append.2 (.inr here)))
      · exact .inr (.inr ⟨state, List.mem_append_right _ (List.mem_singleton_self _), settles⟩)
    · exact .inr (.inl (mem_pivots_append.2 (.inl built)))
    · exact .inr (.inr ⟨earlier, List.mem_append_left _ he, settles⟩)

/-- A turn that selects has no pivot, and strikes off nothing of a record under contract. -/
theorem Underway.selected (phase : state.phase = .selecting) (fits : context.Fits scope state')
    (within : (context.agenda scope).Within state'.agenda)
    (findings : state'.findings = state.findings)
    (fewer : ∀ id name, name ∈ state'.agenda.pendingFor id → name ∈ state.agenda.pendingFor id)
    (left : ∀ a ∈ (context.agenda scope).records, scope.isCovered a = true →
      ∀ name ∈ state.agenda.pendingFor a.id, name ∈ state'.agenda.pendingFor a.id) :
    Underway context scope (passed ++ [state]) state' := by
  refine underway.turned fits within fewer (fun _ => by rw [findings]) ?_
    fun a ha covered name pending => .inl (left a ha covered name pending)
  intro pair here
  rw [pivot?_selecting phase] at here
  cases here

/-- A turn that builds a chain strikes off its pivot and nothing else. -/
theorem Underway.built {record : Absence} {category : CategoryName}
    (phase : state.phase = .building record category) (fits : context.Fits scope state')
    (agenda : state'.agenda = state.agenda.strike record.id category)
    (outside : ∀ id, state'.findings.contains id .outOfContract =
      state.findings.contains id .outOfContract) :
    Underway context scope (passed ++ [state]) state' := by
  have struck {id : AbsenceId} {name : CategoryName} : name ∈ state'.agenda.pendingFor id ↔
      name ∈ state.agenda.pendingFor id ∧ ¬ (id = record.id ∧ name = category) := by
    rw [agenda]
    exact Agenda.mem_strike
  have pivot := pivot?_building phase
  refine underway.turned fits (agenda ▸ underway.within.strike _ _) (fun _ _ h => (struck.1 h).1)
    outside ?_ fun a _ _ name pending => ?_
  · intro pair here pending
    cases pivot.symm.trans here
    exact (struck.1 pending).2 ⟨rfl, rfl⟩
  · by_cases same : a.id = record.id ∧ name = category
    · exact .inr (.inl (by rw [pivot, same.1, same.2]))
    · exact .inl (struck.2 ⟨pending, same⟩)

/-- A turn that repairs a chain has no pivot, and strikes off what the chain settles. -/
theorem Underway.repaired {record : Absence} {chain : Chain}
    (phase : state.phase = .repairing record chain) (fits : context.Fits scope state')
    {effect : RepairEffect} (agenda : state'.agenda = state.agenda.strikePairs
      (Visit.mk record chain.category (.repaired chain effect)).settled)
    (outside : ∀ id, state'.findings.contains id .outOfContract =
      state.findings.contains id .outOfContract) :
    Underway context scope (passed ++ [state]) state' := by
  refine underway.turned fits (agenda ▸ underway.within.strikePairs _)
    (fun _ _ h => (Agenda.mem_strikePairs.1 (agenda ▸ h)).1) outside ?_ fun a _ _ name pending => ?_
  · intro pair here
    rw [pivot?_repairing phase] at here
    cases here
  · by_cases settled : (a.id, name) ∈ (Visit.mk record chain.category (.repaired chain effect)).settled
    · refine .inr (.inr ?_)
      simp only [Settles, phase]
      simp only [Visit.settled, List.mem_flatMap, List.mem_map, Prod.mk.injEq] at settled
      obtain ⟨_, participates, _, has, rfl, rfl⟩ := settled
      exact ⟨participates, has⟩
    · exact .inl (agenda ▸ Agenda.mem_strikePairs.2 ⟨pending, settled⟩)

/-- Every turn carries on what holds. -/
theorem Underway.step (h : Turns context scope state state') :
    Underway context scope (passed ++ [state]) state' := by
  have within := underway.within
  have known := underway.fits
  cases h with
  | drained phase next =>
    obtain ⟨-, rfl⟩ := Prod.mk.inj next
    refine underway.selected phase ?_ within.advance rfl (fun _ _ h => h) fun _ _ _ _ pending => pending
    intro a ha name pending
    exact Agenda.nextPair_none next (within.waits ha pending) name pending
  | @passedBy record category agenda phase next outside =>
    obtain ⟨rfl, -, -⟩ := Agenda.nextPair_some next
    refine underway.selected phase trivial (within.advance.strikeAll record.id) rfl
      (fun _ _ h => (Agenda.mem_strikeAll.1 h).1) fun a ha covered name pending => ?_
    refine Agenda.mem_strikeAll.2 ⟨pending, fun same => ?_⟩
    have uncovered := underway.outside ha
    rw [same, outside, covered] at uncovered
    cases uncovered
  | @chosen record category agenda phase next inside =>
    obtain ⟨rfl, queued, pending⟩ := Agenda.nextPair_some next
    have mem := within.rest queued
    have covered := underway.outside mem
    rw [inside, eq_comm, Bool.not_eq_false'] at covered
    exact underway.selected phase ⟨mem, covered, pending⟩ within.advance rfl (fun _ _ h => h)
      fun _ _ _ _ pending => pending
  | @unbuilt record category result phase visited none =>
    refine underway.built phase trivial ?_ fun id => visited.report_outOfContract state.findings id
    have settled := settled_of_chain?_none none
    show (state.agenda.strike record.id category).strikePairs
      (Visit.mk record category result).settled = _
    rw [settled]
    rfl
  | @built record category chain phase chained missing filled =>
    refine underway.built phase ⟨?_, missing, filled⟩ rfl fun _ => rfl
    rw [category_of_chainAround chained]
    exact chained
  | @repaired record chain repair effect after phase planned carried =>
    unfold Fits at known
    rw [phase] at known
    obtain ⟨chained, missing, filled⟩ := known
    have visited : Visited context scope record chain.category state.ledger (.repaired chain effect)
        after := .repaired chained missing filled planned carried
    exact underway.repaired phase trivial rfl fun id => visited.report_outOfContract state.findings id

end Turns

/-- A run carries on what holds. -/
theorem Underway.run {before passed : List ScanState} {state last : ScanState}
    (underway : Underway context scope before state) (h : Run context scope state passed last) :
    Underway context scope (before ++ passed) last := by
  induction h generalizing before with
  | rest => rwa [List.append_nil]
  | @turn state next last passed taken _ ih =>
    have later := ih (underway.step (turn_next taken))
    rwa [List.append_assoc, List.singleton_append] at later

theorem underway_begin (context : ScanContext) (scope : ScanScope) (ledger : Ledger) :
    Underway context scope [] (context.begin scope ledger) where
  fits := trivial
  within := by
    have filed := filed_agenda context scope
    exact ⟨rfl, fun ha => filed.rest ▸ ha, fun ha _ => filed.rest.symm ▸ ha, fun h => h⟩
  outside ha := begin_outOfContract context scope ledger ha
  once := List.nodup_nil
  struck h := absurd h List.not_mem_nil
  sites h := absurd h List.not_mem_nil
  covers _ _ wanted := .inl wanted

/-- A run that reconciles has nothing pending. -/
theorem Underway.drained {passed : List ScanState} {state : ScanState}
    (underway : Underway context scope passed state) (phase : state.phase = .reconciling) {a : Absence}
    (ha : a ∈ (context.agenda scope).records) (name : CategoryName) :
    name ∉ state.agenda.pendingFor a.id := by
  have known := underway.fits
  unfold Fits at known
  rw [phase] at known
  exact known a ha name

structure Sweeps (context : ScanContext) (scope : ScanScope) (ledger : Ledger) : Prop where
  /-- It answers as the scan, and leaves the same ledger. -/
  answers : context.loop scope (context.begin scope ledger) = context.scan scope ledger
  /-- It takes at most three turns for every pair that is pending at first, and one more before the last. -/
  bounded {passed : List ScanState} {last : ScanState} :
    Run context scope (context.begin scope ledger) passed last →
    passed.length ≤ 3 * (context.agenda scope).pendingCount + 1
  /-- No pair is the pivot of two chains. -/
  once {passed : List ScanState} {last : ScanState} :
    Run context scope (context.begin scope ledger) passed last → (pivots passed).Nodup
  /-- The pivot of a chain is a queued record under contract, with a category of its code. -/
  sites {passed : List ScanState} {last state : ScanState} {record : Absence} {category : CategoryName} :
    Run context scope (context.begin scope ledger) passed last → state ∈ passed →
    state.phase = .building record category → record ∈ (context.agenda scope).records ∧
      scope.isCovered record = true ∧ ∃ c ∈ context.rules.categoriesFor record.code,
        context.settings.excludes c = false ∧ c.name = category
  /-- When the annotations are reconciled no record has a category pending. -/
  drained {passed : List ScanState} {last : ScanState} {record : Absence} {category : CategoryName} :
    Run context scope (context.begin scope ledger) passed last → last.phase = .reconciling →
    record ∈ (context.agenda scope).records → category ∉ last.agenda.pendingFor record.id
  /-- A scan that succeeds has built a chain for each pair of a queued record under contract and a category of
  its code that is not excluded, or repaired one that the record takes part in and that has a period of the
  category. -/
  checked {report : Report} {after : Ledger} : context.scan scope ledger = .ok report after →
    ∃ passed last, Run context scope (context.begin scope ledger) passed last ∧
      last.phase = .reconciling ∧ context.turn scope last = .ended report after ∧
      ∀ r ∈ (context.agenda scope).records, scope.isCovered r = true →
        ∀ c ∈ context.rules.categoriesFor r.code, context.settings.excludes c = false →
          (r.id, c.name) ∈ pivots passed ∨ ∃ state ∈ passed, state.Settles r.id c.name

/-- Over every ledger and for every request, the loop of a scan ends and checks everything: each pair at most
once as a pivot, and each that is under contract at least once. -/
theorem scan_sweeps (context : ScanContext) (scope : ScanScope) (ledger : Ledger) :
    Sweeps context scope ledger := by
  have filed := filed_agenda context scope
  have holds {passed : List ScanState} {last : ScanState}
      (run : Run context scope (context.begin scope ledger) passed last) :
      Underway context scope passed last := (underway_begin context scope ledger).run run
  exact {
    answers := loop_begin context scope ledger
    bounded := fun run => by
      have := run.length_le
      rw [show (context.begin scope ledger).measure =
        3 * (context.agenda scope).pendingCount + 1 from rfl] at this
      omega
    once := fun run => (holds run).once
    sites := fun run hs phase => by
      obtain ⟨mem, covered, pending⟩ := (holds run).sites hs phase
      rw [filed.pending mem] at pending
      exact ⟨mem, covered, Agenda.mem_categoriesOf.1 pending⟩
    drained := fun run phase ha => (holds run).drained phase ha _
    checked := fun {report after} ok => by
      obtain ⟨passed, last, run, ⟨_, _, -, failed⟩ | ⟨-, full⟩ | ⟨report', after', ended, answer⟩⟩ :=
        context.exists_run (context.begin scope ledger)
      · rw [loop_begin, ok] at failed
        cases failed
      · rw [loop_begin, ok] at full
        cases full
      · rw [loop_begin, ok] at answer
        cases answer
        have phase := reconciling_of_ended ended
        refine ⟨passed, last, run, phase, ended, fun r hr covered c hc wanted => ?_⟩
        have pending : c.name ∈ (context.agenda scope).pendingFor r.id := by
          rw [filed.pending hr]
          exact Agenda.mem_categoriesOf.2 ⟨c, hc, wanted, rfl⟩
        exact ((holds run).covers hr covered pending).resolve_left
          ((holds run).drained phase hr c.name) }

end ScanContext

end Entitlement
