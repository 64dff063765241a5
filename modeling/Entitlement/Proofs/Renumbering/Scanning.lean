import Entitlement.Proofs.Renumbering.Twins
import Entitlement.Proofs.Scan.Agenda
import Entitlement.Proofs.Scan.Writing
import Entitlement.Scan.Run

/-!
Scanning two ledgers side by side. A scan reads no other records than those of its person and writes for no one
else, so on ledgers that correspond for the person it goes through the same steps: the same pairs are visited,
the chains are the renumbered ones, and so are the report and what is left behind.
-/

namespace Entitlement

structure Agenda.Below (bound : Nat) (agenda : Agenda) : Prop where
  rest {a : Absence} : a ∈ agenda.rest → a.id < bound
  pending {id : AbsenceId} {names : OrderedSet CategoryName} :
    agenda.pending.get? id = some names → id < bound

namespace Agenda.Below

variable {bound : Nat} {agenda : Agenda}

theorem ofRecords {rules : RuleTree} {settings : ScanSettings} {records : List Absence}
    (old : ∀ a ∈ records, a.id < bound) : (Agenda.ofRecords rules settings records).Below bound := by
  have fold (l : List Absence) (agenda : Agenda) (below : agenda.Below bound) (old : ∀ a ∈ l, a.id < bound) :
      (l.foldl (push rules settings) agenda).Below bound := by
    induction l generalizing agenda with
    | nil => exact below
    | cons a rest ih =>
      refine ih _ ?_ fun b hb => old b (List.mem_cons_of_mem _ hb)
      unfold push
      split
      · exact below
      · have first := old a List.mem_cons_self
        refine ⟨fun {b} hb => ?_, fun {id names} found => ?_⟩
        · rcases List.mem_append.1 hb with before | last
          · exact below.rest before
          · exact List.mem_singleton.1 last ▸ first
        · rw [OrderedMap.get?_insert] at found
          split at found
          · next same => exact same ▸ first
          · exact below.pending found
  exact fold records empty ⟨fun h => absurd h List.not_mem_nil, fun h => by cases h⟩ old

theorem advance (below : agenda.Below bound) : agenda.advance.Below bound where
  rest ha := below.rest (mem_rest_of_advance ha)
  pending found := below.pending found

/-- Taking categories off adds nothing. -/
theorem of_adjust (below : agenda.Below bound) (id : AbsenceId)
    (change : OrderedSet CategoryName → OrderedSet CategoryName) :
    Below bound { agenda with pending := agenda.pending.adjust id change } where
  rest ha := below.rest ha
  pending {k names} found := by
    rw [OrderedMap.get?_adjust] at found
    split at found
    · obtain ⟨before, here, -⟩ := Option.map_eq_some_iff.1 found
      exact below.pending here
    · exact below.pending found

theorem strike (below : agenda.Below bound) (id : AbsenceId) (name : CategoryName) :
    (agenda.strike id name).Below bound :=
  below.of_adjust id (·.erase name)

theorem strikeAll (below : agenda.Below bound) (id : AbsenceId) : (agenda.strikeAll id).Below bound :=
  below.of_adjust id fun _ => ∅

theorem strikePairs (below : agenda.Below bound) (pairs : List (AbsenceId × CategoryName)) :
    (agenda.strikePairs pairs).Below bound := by
  induction pairs generalizing agenda with
  | nil => exact below
  | cons p rest ih => exact ih (below.strike p.1 p.2)

/-- There is nothing to strike off for a record with a new identifier. -/
theorem strike_new (below : agenda.Below bound) {id : AbsenceId} (new : bound ≤ id) (name : CategoryName) :
    agenda.strike id name = agenda := by
  have same : agenda.pending.adjust id (·.erase name) = agenda.pending := by
    apply OrderedMap.ext
    intro k
    rw [OrderedMap.get?_adjust]
    split
    · next here =>
      cases found : agenda.pending.get? k with
      | none => rfl
      | some names => exact absurd (below.pending found) (here ▸ Nat.not_lt.2 new)
    · rfl
  unfold Agenda.strike
  rw [same]

/-- Pairs of renumbered records strike off the same. -/
theorem strikePairs_number {s : Shift} (below : agenda.Below s.first)
    (pairs : List (AbsenceId × CategoryName)) :
    agenda.strikePairs (pairs.map fun p => (s.number p.1, p.2)) = agenda.strikePairs pairs := by
  induction pairs generalizing agenda with
  | nil => rfl
  | cons p rest ih =>
    have first : agenda.strike (s.number p.1) p.2 = agenda.strike p.1 p.2 := by
      by_cases old : p.1 < s.first
      · rw [s.number_old old]
      · have new := Nat.not_lt.1 old
        have new' := Nat.not_lt.1 fun h => old (s.number_lt_first.1 h)
        rw [below.strike_new new, below.strike_new new']
    show (agenda.strike (s.number p.1) p.2).strikePairs _ = (agenda.strike p.1 p.2).strikePairs rest
    rw [first]
    exact ih (below.strike p.1 p.2)

end Agenda.Below

namespace Shift

open Renumbering

variable (s : Shift)

theorem settled_visit (v : Visit) :
    (s.visit v).settled = v.settled.map fun p => (s.number p.1, p.2) := by
  obtain ⟨record, name, result⟩ := v
  cases result with
  | repaired chain effect =>
    show ((chain.participants.relabel s.embeds).toList.flatMap fun absence =>
      (s.chain chain).categories.map fun c => (absence, c)) = _
    rw [categories_chain]
    show (chain.participants.toList.map s.number).flatMap _ = List.map _ (chain.participants.toList.flatMap _)
    simp only [List.flatMap_map, List.map_flatMap, List.map_map]
    rfl
  | childMissing => rfl
  | noPeriods => rfl
  | aborted error => rfl

theorem report_visit (v : Visit) (f : Findings) :
    (s.visit v).report (s.findings f) = s.findings (v.report f) := by
  obtain ⟨record, name, result⟩ := v
  cases result with
  | repaired chain effect => exact s.merge_findings f chain.findings
  | childMissing => exact s.addProblem_findings f record.id .noChildExist
  | noPeriods => rfl
  | aborted error => exact s.addCritical_findings f error

theorem effect_visit (v : Visit) : (s.visit v).effect = s.effect v.effect := by
  obtain ⟨record, name, result⟩ := v
  cases result with
  | repaired chain effect => rfl
  | childMissing => rfl
  | noPeriods => rfl
  | aborted error => rfl

theorem chain?_visit (v : Visit) : (s.visit v).chain? = v.chain?.map s.chain := by
  obtain ⟨record, name, result⟩ := v
  cases result with
  | repaired chain effect => rfl
  | childMissing => rfl
  | noPeriods => rfl
  | aborted error => rfl

theorem removedBy_visits (visits : List Visit) :
    ScanContext.removedBy (visits.map s.visit) = (ScanContext.removedBy visits).relabel s.embeds := by
  unfold ScanContext.removedBy
  rw [← OrderedSet.ofList_relabel, List.flatMap_map, List.map_flatMap]
  refine congrArg OrderedSet.ofList (List.flatMap_congr fun v _ => ?_)
  rw [effect_visit, List.map_append]
  rfl

theorem ofVisits_visits {scope : ScanScope} {agenda : Agenda} (old : ∀ a ∈ agenda.records, a.id < s.first)
    (visits : List Visit) (f : Findings) (troubles : TroubleCount) :
    Report.ofVisits scope agenda (visits.map s.visit) (s.findings f) troubles =
      s.report (.ofVisits scope agenda visits f troubles) := by
  have chains : (visits.map s.visit).filterMap (·.chain?) = (visits.filterMap (·.chain?)).map s.chain := by
    rw [List.filterMap_map, List.map_filterMap]
    exact List.filterMap_congr fun v _ => s.chain?_visit v
  have balances (chains : List Chain) :
      Report.lastBalances (chains.map s.chain) = Report.lastBalances chains := by
    unfold Report.lastBalances
    simp only [List.flatMap_map, balances_chain]
  have inAgenda (id : AbsenceId) : agenda.contains (s.number id) = true ↔ agenda.contains id = true := by
    rw [Agenda.contains_iff, Agenda.contains_iff]
    refine exists_congr fun a => and_congr_right fun ha => ?_
    rw [eq_comm, s.number_eq_old (old a ha), eq_comm]
  have problems : (s.findings f).problems.filter (fun id _ => agenda.contains id) =
      f.problems.filter fun id _ => agenda.contains id := by
    refine (OrderedMap.filter_relabel s.embeds _ f.problems fun k _ _ => ?_).trans
      (OrderedMap.relabel_eq_self s.embeds fun k _ mem => ⟨?_, rfl⟩)
    · exact Bool.eq_iff_iff.2 (inAgenda k)
    · obtain ⟨a, ha, rfl⟩ := Agenda.contains_iff.1 (List.mem_filter.1 mem).2
      exact s.number_old (old a ha)
  unfold Report.ofVisits report
  simp only [chains, balances, problems, List.length_map, List.flatMap_map, effect_visit, List.map_flatMap]
  rfl

end Shift

namespace Twins

variable {s : Shift} {who : PersonId → Bool} {start start' l l' : Ledger} {context : ScanContext}
  {scope : ScanScope}

theorem chainAround (t : Twins s who start start' l l') (mine : who scope.person = true) (record : Absence)
    (name : CategoryName) : context.chainAround scope record name l' =
      s.attempt s.chain (context.chainAround scope record name l) := by
  have laid := s.layOut_fixed context.rules ⟨scope.person, name, record.date, scope.profile⟩
  unfold ScanContext.chainAround
  -- Laying out reads no record, so its chain has no identifier in it that is renumbered.
  refine Eq.trans (congrArg (· >>= _) laid.symm) (s.attempt_bind fun chain => ?_)
  rw [s.reach_chain]
  cases chain.reach with
  | none => rfl
  | some range =>
    simp only [t.absencesIn mine]
    exact s.fill_records _ _ _ _ _

/-- A repair of a chain around a record removes records of the scanned person only. -/
theorem ours_of_repair (t : Twins s who start start' l l') (mine : who scope.person = true)
    {record : Absence} {name : CategoryName} {chain : Chain}
    (built : context.chainAround scope record name l = .ok chain) {repair : Repair}
    (planned : chain.repair context.rules = .ok repair) :
    who repair.person = true ∧ ∀ removal ∈ repair.removals, Ours s who l l' removal.absence := by
  obtain ⟨-, removals, person⟩ := Chain.repair_ok planned
  refine ⟨?_, fun removal mem => ?_⟩
  · rw [person, ScanContext.person_of_chainAround built]
    exact mine
  · obtain ⟨a, ha, theirs, same⟩ := ScanContext.held_of_removal built
      (List.mem_map_of_mem (removals ▸ mem) : removal.absence ∈ _)
    refine t.ours_of_found (a := a) (same ▸ t.proper.sound.mem_records_iff.1 ha) ?_
    rw [theirs]
    exact mine

theorem visit (t : Twins s who start start' l l') (mine : who scope.person = true) {record : Absence}
    (old : record.id < s.first) (name : CategoryName) : Twinned (Twins s who start start') s.visit
      (context.visit scope record name l) (context.visit scope record name l') := by
  have answer (result : VisitResult) :
      (⟨record, name, s.result result⟩ : Visit) = s.visit ⟨record, name, result⟩ := by
    unfold Shift.visit
    rw [s.record_old old]
  unfold ScanContext.visit
  rw [t.chainAround mine]
  cases built : context.chainAround scope record name l with
  | error error =>
    show Twinned _ _ _ (.ok (Visit.mk record name (s.result (.aborted error))) l')
    rw [answer]
    exact .ok _ t
  | ok chain =>
    have empty : (s.chain chain).periods.isEmpty = chain.periods.isEmpty := List.isEmpty_map
    simp only [Renumbering.attempt, empty, s.repair_chain]
    show Twinned _ _ _ (if chain.childIsMissing then _ else _)
    split
    · show Twinned _ _ _ (.ok (Visit.mk record name (s.result .childMissing)) l')
      rw [answer]
      exact .ok _ t
    · split
      · show Twinned _ _ _ (.ok (Visit.mk record name (s.result .noPeriods)) l')
        rw [answer]
        exact .ok _ t
      · cases planned : chain.repair context.rules with
        | error error => exact .error error t
        | ok repair =>
          obtain ⟨person, ours⟩ := t.ours_of_repair mine built planned
          have carried := t.carryOut person ours
          simp only [Except.map]
          generalize Ledger.carryOut repair l = r at carried
          generalize Ledger.carryOut (s.repair repair) l' = r' at carried
          cases carried with
          | error error t => exact .error error t
          | exhausted r => exact .exhausted _
          | ok effect t =>
            show Twinned _ _ _ (.ok (Visit.mk record name (s.result (.repaired chain effect))) _)
            rw [answer]
            exact .ok _ t

theorem visitAll (t : Twins s who start start' l l') (mine : who scope.person = true) {agenda : Agenda}
    (below : agenda.Below s.first) : Twinned (Twins s who start start') (List.map s.visit)
      (context.visitAll scope agenda l) (context.visitAll scope agenda l') := by
  induction agenda using ScanContext.visitAll.induct scope generalizing l l' with
  | case1 agenda next front =>
    rw [ScanContext.visitAll_none front]
    exact .ok [] t
  | case2 agenda record name next front covered ih =>
    obtain ⟨rfl, inside, -⟩ := Agenda.nextPair_some front
    rw [ScanContext.visitAll_some front, if_pos covered]
    refine (t.visit mine (below.rest inside) name).bind fun visit k k' _ _ t => ?_
    -- A visit may settle records that repairs wrote; these are not on the agenda, whatever their numbers.
    have left := below.advance.strike record.id name
    rw [s.settled_visit, left.strikePairs_number]
    exact (ih visit t (left.strikePairs visit.settled)).bind fun rest k k' _ _ t => .ok (visit :: rest) t
  | case3 agenda record name next front uncovered ih =>
    obtain ⟨rfl, -, -⟩ := Agenda.nextPair_some front
    rw [ScanContext.visitAll_some front, if_neg uncovered]
    exact ih t (below.advance.strikeAll record.id)

theorem standaloneFindings (t : Twins s who start start' l l') (mine : who scope.person = true)
    {records : List Absence} (old : ∀ a ∈ records, a.id < s.first) :
    scope.standaloneFindings l' records = s.findings (scope.standaloneFindings l records) := by
  have problems (a : Absence) (ha : a.id < s.first) :
      scope.standaloneProblems l' a = scope.standaloneProblems l a := by
    have others : (l'.absencesIn scope.person a.date a.date).filter (fun other => other.id ≠ a.id) =
        ((l.absencesIn scope.person a.date a.date).filter fun other => other.id ≠ a.id).map s.record := by
      rw [t.absencesIn mine, List.filter_map]
      refine congrArg (List.map s.record) (List.filter_congr fun other _ => ?_)
      refine decide_eq_decide.2 (not_congr ?_)
      exact s.number_eq_old ha
    unfold ScanScope.standaloneProblems Absence.sameDayProblems
    simp only [others, List.any_map]
    rfl
  have one (a : Absence) (ha : a.id < s.first) (f : Findings) (problems : List Problem) :
      problems.foldl (fun f problem => f.addProblem a.id problem) (s.findings f) =
        s.findings (problems.foldl (fun f problem => f.addProblem a.id problem) f) := by
    refine List.foldl_hom s.findings fun f problem => ?_
    rw [← s.addProblem_findings, s.number_old ha]
  have fold (records : List Absence) (f : Findings) (old : ∀ a ∈ records, a.id < s.first) :
      records.foldl (fun f a => (scope.standaloneProblems l' a).foldl
          (fun f problem => f.addProblem a.id problem) f) (s.findings f) =
        s.findings (records.foldl (fun f a => (scope.standaloneProblems l a).foldl
          (fun f problem => f.addProblem a.id problem) f) f) := by
    induction records generalizing f with
    | nil => rfl
    | cons a rest ih =>
      have ha := old a List.mem_cons_self
      simp only [List.foldl_cons, problems a ha, one a ha]
      exact ih _ fun b hb => old b (List.mem_cons_of_mem _ hb)
  exact fold records ∅ old

/-- Scans of corresponding ledgers correspond. -/
theorem scan (t : Twins s who l l' l l') (mine : who scope.person = true)
    (old : ∀ a ∈ scope.records, a.id < s.first ∧ Ours s who l l' a.id) :
    Twinned (Twins s who l l') s.report (context.scan scope l) (context.scan scope l') := by
  have filed := Agenda.filed_ofRecords context.rules context.settings scope.records
  have below : (Agenda.ofRecords context.rules context.settings scope.records).Below s.first :=
    .ofRecords fun a ha => (old a ha).1
  have visited : Twinned _ _ (context.visitAll scope _ l) (context.visitAll scope _ l') :=
    t.visitAll mine below
  unfold ScanContext.scan
  simp only
  generalize Agenda.ofRecords context.rules context.settings scope.records = agenda at filed visited
  have known : ∀ a ∈ agenda.records, a.id < s.first := fun a ha => (old a (filed.origin ha)).1
  rw [t.standaloneFindings mine known]
  generalize context.visitAll scope agenda l = r at visited
  generalize context.visitAll scope agenda l' = r' at visited
  cases visited with
  | error e t => exact .error e t
  | exhausted r => exact .exhausted _
  | ok visits t =>
    have found (visits : List Visit) (f : Findings) :
        (visits.map s.visit).foldl (fun f v => v.report f) (s.findings f) =
          s.findings (visits.foldl (fun f v => v.report f) f) := by
      rw [List.foldl_map]
      exact List.foldl_hom s.findings fun f v => s.report_visit v f
    have ids : agenda.records.map (·.id) = (agenda.records.map (·.id)).map s.number := by
      rw [List.map_map]
      exact List.map_congr_left fun a ha => (s.number_old (known a ha)).symm
    have ours (id : AbsenceId) (h : id ∈ agenda.records.map (·.id)) : Ours s who l l' id := by
      obtain ⟨a, ha, rfl⟩ := List.mem_map.1 h
      exact (old a (filed.origin ha)).2
    simp only [found, s.removedBy_visits]
    generalize visits.foldl (fun f v => v.report f) _ = findings
    have reconciled := t.reconcile (ScanContext.removedBy visits) findings ours
    rw [← ids] at reconciled
    generalize Ledger.reconcile _ findings _ _ = r at reconciled
    generalize Ledger.reconcile _ (s.findings findings) _ _ = r' at reconciled
    cases reconciled with
    | error e t => exact .error _ t
    | exhausted r => exact .exhausted _
    | ok troubles t =>
      simp only [id, s.ofVisits_visits known]
      exact .ok _ t

end Twins

end Entitlement
