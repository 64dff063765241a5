import Entitlement.Proofs.Scan.Reports

/-!
A scan as a loop over phases: it looks for the next pending pair, builds the chain around it, repairs the chain,
and when nothing is pending any more reconciles the annotations. Every turn lowers a measure, whatever way
the turn goes, so the loop ends; and it answers as the scan does that visits pair after pair.
-/

namespace Entitlement

inductive ScanPhase where
  | selecting
  | building (record : Absence) (category : CategoryName)
  | repairing (record : Absence) (chain : Chain)
  | reconciling

structure ScanState where
  phase : ScanPhase
  agenda : Agenda
  ledger : Ledger
  findings : Findings
  visits : List Visit

namespace ScanState

/-- Takes a visit down and looks for the next pair. -/
def log (state : ScanState) (visit : Visit) : ScanState :=
  { state with
    phase := .selecting
    agenda := state.agenda.strikePairs visit.settled
    findings := visit.report state.findings
    visits := state.visits ++ [visit] }

/-- What is left to do. The pair of a chain that is about to be built no longer counts as pending. -/
def measure (state : ScanState) : Nat :=
  match state.phase with
  | .selecting => 3 * state.agenda.pendingCount + 1
  | .building record category => 3 * (state.agenda.strike record.id category).pendingCount + 3
  | .repairing _ _ => 3 * state.agenda.pendingCount + 2
  | .reconciling => 0

end ScanState

inductive Turn where
  | next (state : ScanState)
  | failed (error : ScanFailure) (ledger : Ledger)
  | exhausted
  | ended (report : Report) (ledger : Ledger)

namespace ScanContext

/-- One turn of the loop. The pair of a chain is struck off before it is built, so that it is not built again
if that fails. -/
def turn (context : ScanContext) (scope : ScanScope) (state : ScanState) : Turn :=
  match state.phase with
  | .selecting =>
    match state.agenda.nextPair with
    | (none, agenda) => .next { state with phase := .reconciling, agenda := agenda }
    | (some (record, category), agenda) =>
      if state.findings.contains record.id .outOfContract then
        .next { state with agenda := agenda.strikeAll record.id }
      else .next { state with phase := .building record category, agenda := agenda }
  | .building record category =>
    let struck := { state with agenda := state.agenda.strike record.id category }
    match context.chainAround scope record category state.ledger with
    | .error error => .next (struck.log ⟨record, category, .aborted error⟩)
    | .ok chain =>
      if chain.childIsMissing then .next (struck.log ⟨record, category, .childMissing⟩)
      else if chain.periods.isEmpty then .next (struck.log ⟨record, category, .noPeriods⟩)
      else .next { struck with phase := .repairing record chain }
  | .repairing record chain =>
    match chain.repair context.rules with
    | .error error => .failed error state.ledger
    | .ok repair =>
      match Ledger.carryOut repair state.ledger with
      | .exhausted => .exhausted
      | .error error ledger => .failed error ledger
      | .ok effect ledger =>
        .next ({ state with ledger := ledger }.log ⟨record, chain.category, .repaired chain effect⟩)
  | .reconciling =>
    match Ledger.reconcile (removedBy state.visits) state.findings
        (state.agenda.records.map (·.id)) state.ledger with
    | .exhausted => .exhausted
    | .error error ledger => .failed (.store error) ledger
    | .ok troubles ledger =>
      .ended (.ofVisits scope state.agenda state.visits state.findings troubles) ledger

inductive Turns (context : ScanContext) (scope : ScanScope) : ScanState → ScanState → Prop
  | drained {state : ScanState} {agenda : Agenda} : state.phase = .selecting →
      state.agenda.nextPair = (none, agenda) →
      Turns context scope state { state with phase := .reconciling, agenda := agenda }
  | passedBy {state : ScanState} {record : Absence} {category : CategoryName} {agenda : Agenda} :
      state.phase = .selecting → state.agenda.nextPair = (some (record, category), agenda) →
      state.findings.contains record.id .outOfContract = true →
      Turns context scope state
        { state with phase := .selecting, agenda := agenda.strikeAll record.id }
  | chosen {state : ScanState} {record : Absence} {category : CategoryName} {agenda : Agenda} :
      state.phase = .selecting → state.agenda.nextPair = (some (record, category), agenda) →
      state.findings.contains record.id .outOfContract = false →
      Turns context scope state { state with phase := .building record category, agenda := agenda }
  | unbuilt {state : ScanState} {record : Absence} {category : CategoryName} {result : VisitResult} :
      state.phase = .building record category →
      Visited context scope record category state.ledger result state.ledger →
      (Visit.mk record category result).chain? = none →
      Turns context scope state
        ({ state with agenda := state.agenda.strike record.id category }.log ⟨record, category, result⟩)
  | built {state : ScanState} {record : Absence} {category : CategoryName} {chain : Chain} :
      state.phase = .building record category →
      context.chainAround scope record category state.ledger = .ok chain →
      chain.childIsMissing = false → chain.periods ≠ [] →
      Turns context scope state { state with
        agenda := state.agenda.strike record.id category
        phase := .repairing record chain }
  | repaired {state : ScanState} {record : Absence} {chain : Chain} {repair : Repair}
      {effect : RepairEffect} {after : Ledger} : state.phase = .repairing record chain →
      chain.repair context.rules = .ok repair →
      Ledger.carryOut repair state.ledger = .ok effect after →
      Turns context scope state
        ({ state with ledger := after }.log ⟨record, chain.category, .repaired chain effect⟩)

variable {context : ScanContext} {scope : ScanScope}

/-- A turn goes on, or fails, or breaks off, or ends the loop when it has reconciled. -/
theorem turn_cases (context : ScanContext) (scope : ScanScope) (state : ScanState) :
    (∃ state', context.turn scope state = .next state' ∧ Turns context scope state state') ∨
      (∃ error ledger, context.turn scope state = .failed error ledger) ∨
      context.turn scope state = .exhausted ∨
      (∃ report ledger, context.turn scope state = .ended report ledger) ∧ state.phase = .reconciling := by
  cases phase : state.phase with
  | selecting =>
    cases front : state.agenda.nextPair with
    | mk pair agenda =>
      cases pair with
      | none => exact .inl ⟨_, by simp only [turn, phase, front], .drained phase front⟩
      | some pair =>
        by_cases outside : state.findings.contains pair.1.id .outOfContract = true
        · exact .inl ⟨_, by simp only [turn, phase, front, if_pos outside], .passedBy phase front outside⟩
        · exact .inl ⟨_, by simp only [turn, phase, front, if_neg outside],
            .chosen phase front (Bool.eq_false_iff.2 outside)⟩
  | building record category =>
    cases built : context.chainAround scope record category state.ledger with
    | error error =>
      exact .inl ⟨_, by simp only [turn, phase, built], .unbuilt phase (.aborted built) rfl⟩
    | ok chain =>
      by_cases missing : chain.childIsMissing = true
      · exact .inl ⟨_, by simp only [turn, phase, built, if_pos missing],
          .unbuilt phase (.childMissing built missing) rfl⟩
      · have present := Bool.eq_false_iff.2 missing
        by_cases empty : chain.periods.isEmpty = true
        · exact .inl ⟨_, by simp only [turn, phase, built, if_neg missing, if_pos empty],
            .unbuilt phase (.noPeriods built present (List.isEmpty_iff.1 empty)) rfl⟩
        · exact .inl ⟨_, by simp only [turn, phase, built, if_neg missing, if_neg empty],
            .built phase built present (mt List.isEmpty_iff.2 empty)⟩
  | repairing record chain =>
    cases planned : chain.repair context.rules with
    | error error => exact .inr (.inl ⟨error, state.ledger, by simp only [turn, phase, planned]⟩)
    | ok repair =>
      cases carried : Ledger.carryOut repair state.ledger with
      | error error after => exact .inr (.inl ⟨error, after, by simp only [turn, phase, planned, carried]⟩)
      | exhausted => exact .inr (.inr (.inl (by simp only [turn, phase, planned, carried])))
      | ok effect after =>
        exact .inl ⟨_, by simp only [turn, phase, planned, carried], .repaired phase planned carried⟩
  | reconciling =>
    cases reconciled : Ledger.reconcile (removedBy state.visits) state.findings
        (state.agenda.records.map (·.id)) state.ledger with
    | error error after => exact .inr (.inl ⟨.store error, after, by simp only [turn, phase, reconciled]⟩)
    | exhausted => exact .inr (.inr (.inl (by simp only [turn, phase, reconciled])))
    | ok troubles after =>
      exact .inr (.inr (.inr ⟨⟨.ofVisits scope state.agenda state.visits state.findings troubles, after,
        by simp only [turn, phase, reconciled]⟩, rfl⟩))

theorem turn_next {state state' : ScanState} (h : context.turn scope state = .next state') :
    Turns context scope state state' := by
  obtain ⟨next, taken, turns⟩ | ⟨_, _, taken⟩ | taken | ⟨⟨_, _, taken⟩, -⟩ := turn_cases context scope state
  · cases h.symm.trans taken
    exact turns
  · cases h.symm.trans taken
  · cases h.symm.trans taken
  · cases h.symm.trans taken

/-- The loop ends in the phase that reconciles. -/
theorem reconciling_of_ended {state : ScanState} {report : Report} {ledger : Ledger}
    (h : context.turn scope state = .ended report ledger) : state.phase = .reconciling := by
  obtain ⟨_, taken, -⟩ | ⟨_, _, taken⟩ | taken | ⟨-, phase⟩ := turn_cases context scope state
  · cases h.symm.trans taken
  · cases h.symm.trans taken
  · cases h.symm.trans taken
  · exact phase

/-- Every turn after which the loop goes on leaves less to do. -/
theorem Turns.measure_lt {state state' : ScanState} (h : Turns context scope state state') :
    state'.measure < state.measure := by
  cases h with
  | drained phase next =>
    simp only [ScanState.measure, phase]
    omega
  | passedBy phase next outside =>
    have := Agenda.strikeAll_count_lt next
    simp only [ScanState.measure, phase]
    omega
  | chosen phase next inside =>
    have := Agenda.strike_count_lt next
    simp only [ScanState.measure, phase]
    omega
  | @unbuilt record category result phase visited none =>
    have := Agenda.strikePairs_count_le (state.agenda.strike record.id category)
      (Visit.mk record category result).settled
    simp only [ScanState.measure, ScanState.log, phase]
    omega
  | built phase built missing filled =>
    simp only [ScanState.measure, phase]
    omega
  | @repaired record chain repair effect after phase planned carried =>
    have := Agenda.strikePairs_count_le state.agenda
      (Visit.mk record chain.category (.repaired chain effect)).settled
    simp only [ScanState.measure, ScanState.log, phase]
    omega

def loop (context : ScanContext) (scope : ScanScope) (state : ScanState) :
    ActionResult ScanFailure Report :=
  match _h : context.turn scope state with
  | .next state => context.loop scope state
  | .failed error ledger => .error error ledger
  | .exhausted => .exhausted
  | .ended report ledger => .ok report ledger
termination_by state.measure
decreasing_by exact (turn_next ‹_›).measure_lt

def begin (context : ScanContext) (scope : ScanScope) (ledger : Ledger) : ScanState where
  phase := .selecting
  agenda := context.agenda scope
  ledger := ledger
  findings := scope.standaloneFindings ledger (context.agenda scope).records
  visits := []

/-- Turns taken one after the other, with the states that they were taken in. -/
inductive Run (context : ScanContext) (scope : ScanScope) :
    ScanState → List ScanState → ScanState → Prop
  | rest {state : ScanState} : Run context scope state [] state
  | turn {state next last : ScanState} {passed : List ScanState} :
      context.turn scope state = .next next → Run context scope next passed last →
      Run context scope state (state :: passed) last

/-- A run takes no more turns than its first state leaves to do. -/
theorem Run.length_le {state last : ScanState} {passed : List ScanState}
    (h : Run context scope state passed last) : passed.length + last.measure ≤ state.measure := by
  induction h with
  | rest => simp
  | turn taken _ ih =>
    have := (turn_next taken).measure_lt
    rw [List.length_cons]
    omega

theorem loop_eq (state : ScanState) : context.loop scope state =
    match context.turn scope state with
    | .next state => context.loop scope state
    | .failed error ledger => .error error ledger
    | .exhausted => .exhausted
    | .ended report ledger => .ok report ledger := by
  rw [loop]
  split
  · next found => rw [found]
  · next found => rw [found]
  · next found => rw [found]
  · next found => rw [found]

theorem loop_next {state next : ScanState} (h : context.turn scope state = .next next) :
    context.loop scope state = context.loop scope next := by
  rw [loop_eq, h]

theorem loop_failed {state : ScanState} {error : ScanFailure} {ledger : Ledger}
    (h : context.turn scope state = .failed error ledger) :
    context.loop scope state = .error error ledger := by
  rw [loop_eq, h]

theorem loop_exhausted {state : ScanState} (h : context.turn scope state = .exhausted) :
    context.loop scope state = .exhausted := by
  rw [loop_eq, h]

theorem loop_ended {state : ScanState} {report : Report} {ledger : Ledger}
    (h : context.turn scope state = .ended report ledger) :
    context.loop scope state = .ok report ledger := by
  rw [loop_eq, h]

/-- The loop is a run whose last turn it answers with. -/
theorem exists_run (state : ScanState) : ∃ passed last, Run context scope state passed last ∧
    ((∃ error ledger, context.turn scope last = .failed error ledger ∧
        context.loop scope state = .error error ledger) ∨
      (context.turn scope last = .exhausted ∧ context.loop scope state = .exhausted) ∨
      ∃ report ledger, context.turn scope last = .ended report ledger ∧
        context.loop scope state = .ok report ledger) := by
  induction state using loop.induct context scope with
  | case1 state next taken ih =>
    obtain ⟨passed, last, run, ends⟩ := ih
    rw [← loop_next taken] at ends
    exact ⟨state :: passed, last, .turn taken run, ends⟩
  | case2 state error ledger taken =>
    exact ⟨[], state, .rest, .inl ⟨error, ledger, taken, loop_failed taken⟩⟩
  | case3 state taken =>
    exact ⟨[], state, .rest, .inr (.inl ⟨taken, loop_exhausted taken⟩)⟩
  | case4 state report ledger taken =>
    exact ⟨[], state, .rest, .inr (.inr ⟨report, ledger, taken, loop_ended taken⟩)⟩

/-- A chain around a record has the category it was asked for. -/
theorem category_of_chainAround {record : Absence} {category : CategoryName} {ledger : Ledger}
    {chain : Chain} (h : context.chainAround scope record category ledger = .ok chain) :
    chain.category = category := by
  obtain ⟨laid, hlaid, filled⟩ := chainAround_ok h
  obtain ⟨-, rfl⟩ := Chain.fill_ok filled
  exact (Chain.category_layOut hlaid :)

/-- No visit finds a record outside every contract. -/
theorem Visited.finds_ne {record : Absence} {category : CategoryName} {result : VisitResult}
    {ledger after : Ledger} (h : Visited context scope record category ledger result after)
    (absence : AbsenceId) : ¬ (Visit.mk record category result).finds absence .outOfContract := by
  unfold Visit.finds
  intro flag
  cases h with
  | aborted _ => exact flag
  | childMissing _ _ => cases flag.2
  | noPeriods _ _ _ => exact flag
  | repaired built _ _ _ _ =>
    obtain ⟨laid, hlaid, filled⟩ := chainAround_ok built
    obtain ⟨other, -⟩ := Chain.fill_flags hlaid filled flag
    cases other

/-- A visit leaves it open which records are outside every contract. -/
theorem Visited.report_outOfContract {record : Absence} {category : CategoryName} {result : VisitResult}
    {ledger after : Ledger} (h : Visited context scope record category ledger result after)
    (findings : Findings) (absence : AbsenceId) :
    ((Visit.mk record category result).report findings).contains absence .outOfContract =
      findings.contains absence .outOfContract := by
  rw [Bool.eq_iff_iff, Visit.contains_report]
  exact or_iff_left (h.finds_ne absence)

theorem loop_repairing {state : ScanState} {record : Absence} {chain : Chain}
    (phase : state.phase = .repairing record chain) :
    context.loop scope state = match chain.repair context.rules with
      | .error error => .error error state.ledger
      | .ok repair => match Ledger.carryOut repair state.ledger with
        | .exhausted => .exhausted
        | .error error ledger => .error error ledger
        | .ok effect ledger => context.loop scope
            ({ state with ledger := ledger }.log ⟨record, chain.category, .repaired chain effect⟩) := by
  cases planned : chain.repair context.rules with
  | error error => exact loop_failed (by simp only [turn, phase, planned])
  | ok repair =>
    dsimp only
    cases carried : Ledger.carryOut repair state.ledger with
    | error error after => exact loop_failed (by simp only [turn, phase, planned, carried])
    | exhausted => exact loop_exhausted (by simp only [turn, phase, planned, carried])
    | ok effect after => exact loop_next (by simp only [turn, phase, planned, carried])

/-- The turns from a chain that is to be built are those of the visit. -/
theorem loop_building {state : ScanState} {record : Absence} {category : CategoryName}
    (phase : state.phase = .building record category) :
    context.loop scope state = match context.visit scope record category state.ledger with
      | .exhausted => .exhausted
      | .error error ledger => .error error ledger
      | .ok visit ledger => context.loop scope ({ state with
          agenda := state.agenda.strike record.id category
          ledger := ledger }.log visit) := by
  unfold visit
  cases built : context.chainAround scope record category state.ledger with
  | error error => exact loop_next (by simp only [turn, phase, built])
  | ok chain =>
    dsimp only
    by_cases missing : chain.childIsMissing = true
    · simp only [if_pos missing]
      exact loop_next (by simp only [turn, phase, built, if_pos missing])
    · by_cases empty : chain.periods.isEmpty = true
      · simp only [if_neg missing, if_pos empty]
        exact loop_next (by simp only [turn, phase, built, if_neg missing, if_pos empty])
      · simp only [if_neg missing, if_neg empty]
        have taken : context.turn scope state = .next { state with
            agenda := state.agenda.strike record.id category
            phase := .repairing record chain } := by
          simp only [turn, phase, built, if_neg missing, if_neg empty]
        rw [loop_next taken, loop_repairing rfl]
        dsimp only
        cases chain.repair context.rules with
        | error error => rfl
        | ok repair =>
          dsimp only
          rw [category_of_chainAround built]
          cases Ledger.carryOut repair state.ledger with
          | error error after => rfl
          | exhausted => rfl
          | ok effect after => rfl

def conclude (scope : ScanScope) (agenda : Agenda) (visits : List Visit) (findings : Findings)
    (ledger : Ledger) : ActionResult ScanFailure Report :=
  match Ledger.reconcile (removedBy visits) findings (agenda.records.map (·.id)) ledger with
  | .exhausted => .exhausted
  | .error error ledger => .error (.store error) ledger
  | .ok troubles ledger => .ok (.ofVisits scope agenda visits findings troubles) ledger

theorem loop_reconciling {state : ScanState} (phase : state.phase = .reconciling) :
    context.loop scope state =
      conclude scope state.agenda state.visits state.findings state.ledger := by
  unfold conclude
  split
  · next full => exact loop_exhausted (by simp only [turn, phase, full])
  · next failed => exact loop_failed (by simp only [turn, phase, failed])
  · next reconciled => exact loop_ended (by simp only [turn, phase, reconciled])

/-- The end reads the records of the agenda alone. -/
theorem conclude_congr {agenda agenda' : Agenda} (same : agenda.records = agenda'.records)
    (visits : List Visit) (findings : Findings) (ledger : Ledger) :
    conclude scope agenda visits findings ledger = conclude scope agenda' visits findings ledger := by
  simp only [conclude, Report.ofVisits, Agenda.size, Agenda.contains, same]

@[simp] theorem records_strikePairs (agenda : Agenda) (pairs : List (AbsenceId × CategoryName)) :
    (agenda.strikePairs pairs).records = agenda.records := by
  induction pairs generalizing agenda with
  | nil => rfl
  | cons p rest ih => exact ih (agenda.strike p.1 p.2)

/-- While it is known which records are outside every contract, the loop makes the visits of the agenda. -/
theorem loop_selecting {state : ScanState} (phase : state.phase = .selecting)
    (outside : ∀ a ∈ state.agenda.rest,
      state.findings.contains a.id .outOfContract = !scope.isCovered a) :
    context.loop scope state = match context.visitAll scope state.agenda state.ledger with
      | .exhausted => .exhausted
      | .error error ledger => .error error ledger
      | .ok visits ledger => conclude scope state.agenda (state.visits ++ visits)
          (visits.foldl (fun findings visit => visit.report findings) state.findings) ledger := by
  generalize agenda : state.agenda = pairs
  induction pairs using visitAll.induct scope generalizing state with
  | case1 pairs next front =>
    subst agenda
    obtain ⟨-, rfl⟩ := Prod.mk.inj front
    have taken : context.turn scope state =
        .next { state with phase := .reconciling, agenda := state.agenda.advance } := by
      simp only [turn, phase, front]
    rw [visitAll_none front, loop_next taken, loop_reconciling rfl]
    exact congrArg (fun visits => conclude scope state.agenda visits state.findings state.ledger)
      (List.append_nil state.visits).symm
  | case2 pairs record name next front covered ih =>
    subst agenda
    obtain ⟨rfl, inside, -⟩ := Agenda.nextPair_some front
    have known : state.findings.contains record.id .outOfContract = false := by
      rw [outside record inside, covered]
      rfl
    have taken : context.turn scope state =
        .next { state with phase := .building record name, agenda := state.agenda.advance } := by
      simp only [turn, phase, front, known, Bool.false_eq_true, if_false]
    rw [visitAll_some front, if_pos covered, loop_next taken, loop_building rfl]
    cases visited : context.visit scope record name state.ledger with
    | error error after => rw [LedgerAction.bind_of_error visited]
    | exhausted => rw [LedgerAction.bind_of_exhausted visited]
    | ok visit after =>
      obtain ⟨rfl, rfl, made⟩ := visit_ok visited
      rw [LedgerAction.bind_of_ok visited]
      dsimp only
      rw [ih visit rfl (fun a ha => by
        simp only [ScanState.log, Agenda.rest_strikePairs] at ha
        exact (made.report_outOfContract state.findings a.id).trans
          (outside a (Agenda.mem_rest_of_advance ha))) rfl]
      simp only [ScanState.log]
      cases rest : context.visitAll scope ((state.agenda.advance.strike visit.record.id
          visit.category).strikePairs visit.settled) after with
      | error error ledger => rw [LedgerAction.bind_of_error rest]
      | exhausted => rw [LedgerAction.bind_of_exhausted rest]
      | ok visits ledger =>
        rw [LedgerAction.bind_of_ok rest]
        simp only [pure, List.append_assoc, List.singleton_append, List.foldl_cons]
        exact conclude_congr (records_strikePairs _ _) _ _ _
  | case3 pairs record name next front uncovered ih =>
    subst agenda
    obtain ⟨rfl, inside, -⟩ := Agenda.nextPair_some front
    have known : state.findings.contains record.id .outOfContract = true := by
      rw [outside record inside, Bool.eq_false_iff.2 uncovered]
      rfl
    let left : ScanState := { state with agenda := state.agenda.advance.strikeAll record.id }
    have taken : context.turn scope state = .next left := by
      simp only [turn, phase, front, known, if_true, left]
    have selecting : left.phase = .selecting := phase
    rw [visitAll_some front, if_neg uncovered, loop_next taken,
      ih selecting (fun a ha => outside a (Agenda.mem_rest_of_advance ha)) rfl]
    rfl

theorem outOfContract_standalone {ledger : Ledger} {a : Absence} :
    .outOfContract ∈ scope.standaloneProblems ledger a ↔ scope.isCovered a = false := by
  simp only [ScanScope.standaloneProblems, Absence.sameDayProblems, List.mem_append]
  constructor
  · rintro (own | duplicate | conflict)
    · split at own
      · cases own
      · next uncovered => exact Bool.eq_false_iff.2 uncovered
    · split at duplicate <;> simp at duplicate
    · split at conflict <;> simp at conflict
  · intro uncovered
    exact .inl (by simp [uncovered])

/-- A scan begins by finding the records outside every contract. -/
theorem begin_outOfContract (context : ScanContext) (scope : ScanScope) (ledger : Ledger)
    {a : Absence} (ha : a ∈ (context.agenda scope).records) :
    (context.begin scope ledger).findings.contains a.id .outOfContract = !scope.isCovered a := by
  have filed := filed_agenda context scope
  rw [Bool.eq_iff_iff, begin, contains_standalone, Bool.not_eq_true']
  constructor
  · rintro ⟨b, hb, same, own⟩
    rw [filed.distinct ha hb same]
    exact outOfContract_standalone.1 own
  · exact fun uncovered => ⟨a, ha, rfl, outOfContract_standalone.2 uncovered⟩

/-- The loop answers as the scan does, and leaves the same ledger. -/
theorem loop_begin (context : ScanContext) (scope : ScanScope) (ledger : Ledger) :
    context.loop scope (context.begin scope ledger) = context.scan scope ledger := by
  have filed := filed_agenda context scope
  rw [loop_selecting rfl fun a ha => begin_outOfContract context scope ledger (filed.rest ▸ ha), scan]
  show (match context.visitAll scope (context.agenda scope) ledger with
    | .exhausted => _
    | .error error ledger => _
    | .ok visits ledger => _) = _
  cases context.visitAll scope (context.agenda scope) ledger with
  | error error after => rfl
  | exhausted => rfl
  | ok visits after => rfl

end ScanContext

end Entitlement
