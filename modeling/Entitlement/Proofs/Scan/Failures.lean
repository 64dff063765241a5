import Entitlement.Proofs.Ledger.Days
import Entitlement.Proofs.Scan.Idempotence
import Entitlement.Proofs.Scan.Places

/-!
How a scan can fail. The ledger refuses nothing that a scan asks for, since every record is written on a day
that is the person's and only records that are there are annotated. So a scan stops only at a code that a
repair must write and cannot.
-/

namespace Entitlement

/-- Why no record of a code can be written by a repair: the code is not in the catalog, or its entry allows to
justify nothing not at all or several times. -/
inductive RuleTree.Bars (rules : RuleTree) (code : Code) : Precondition → Prop
  | unlisted : rules.code? code = none → Bars rules code (.codeNotInCatalog code)
  | never {entry : CodeEntry} : rules.code? code = some entry → entry.kinds.count .nothing = 0 →
      Bars rules code (.noUncountedKind code)
  | several {entry : CodeEntry} : rules.code? code = some entry → 1 < entry.kinds.count .nothing →
      Bars rules code (.severalUncountedKinds code (entry.kinds.count .nothing))

/-- The justifications without an amount are all the same. -/
theorem CodeEntry.length_uncountedKinds (entry : CodeEntry) :
    entry.uncountedKinds.length = entry.kinds.count .nothing := by
  rw [uncountedKinds, ← List.countP_eq_length_filter, List.count]
  exact List.countP_congr fun kind _ => by simp [Justification.isUncounted]

/-- A code has no justification for its replacing records just if it is barred. -/
theorem RuleTree.justificationFor_error_iff {rules : RuleTree} {code : Code} {condition : Precondition} :
    rules.justificationFor code = .error condition ↔ rules.Bars code condition := by
  unfold justificationFor
  cases found : rules.code? code with
  | none =>
    constructor
    · intro h
      cases h
      exact .unlisted found
    · intro bars
      cases bars with
      | unlisted _ => rfl
      | never known _ => cases found.symm.trans known
      | several known _ => cases found.symm.trans known
  | some entry =>
    have count := entry.length_uncountedKinds
    dsimp only
    constructor
    · intro h
      split at h
      · cases h
      · next none =>
        cases h
        rw [none] at count
        exact .never found count.symm
      · next single empty =>
        cases h
        rw [count]
        refine .several found (count ▸ ?_)
        match kinds : entry.uncountedKinds with
        | [] => exact absurd kinds empty
        | [kind] => exact absurd kinds (single kind)
        | _ :: _ :: _ => exact Nat.succ_lt_succ (Nat.succ_pos _)
    · intro bars
      cases bars with
      | unlisted none => cases found.symm.trans none
      | never known none =>
        cases found.symm.trans known
        rw [List.length_eq_zero_iff.1 (count.trans none)]
        rfl
      | several known many =>
        cases found.symm.trans known
        rw [← count] at many ⊢
        match kinds : entry.uncountedKinds with
        | [] => simp [kinds] at many
        | [_] => simp [kinds] at many
        | _ :: _ :: _ => rfl

namespace Chain

/-- Planning additions fails at a code that some day requires and that cannot be written. -/
theorem additions_error {rules : RuleTree} {days : List (Period × PeriodDay)} {condition : Precondition}
    (h : additions rules days = .error condition) : ∃ e ∈ days, ∃ required,
      e.2.required = some required ∧ rules.Bars required.code condition := by
  induction days with
  | nil => cases h
  | cons e rest ih =>
    unfold additions at h
    cases own : addition? rules e.1 e.2 with
    | error failed =>
      rw [own] at h
      cases h
      unfold addition? at own
      split at own
      · cases own
      · next required asked =>
        split at own
        · cases barred : rules.justificationFor required.code with
          | error failed =>
            rw [barred] at own
            cases own
            exact ⟨e, List.mem_cons_self, required, asked, RuleTree.justificationFor_error_iff.1 barred⟩
          | ok kind =>
            rw [barred] at own
            cases own
        · cases own
    | ok planned =>
      rw [own] at h
      cases later : additions rules rest with
      | error failed =>
        rw [later] at h
        cases h
        obtain ⟨e', he', found⟩ := ih later
        exact ⟨e', List.mem_cons_of_mem _ he', found⟩
      | ok others =>
        rw [later] at h
        cases h

end Chain

namespace ScanContext

/-- A failure at a code that some automatic category replaces with and that cannot be written. -/
def Blocked (context : ScanContext) (failure : ScanFailure) : Prop :=
  ∃ category ∈ context.rules.all, category.automatic = true ∧ ∃ code condition,
    category.replaces code = true ∧ context.rules.Bars code condition ∧ failure = .precondition condition

variable {context : ScanContext} {scope : ScanScope}

/-- The repair of a chain around a record is planned, or blocked. -/
theorem blocked_of_repair {record : Absence} {name : CategoryName} {ledger : Ledger} {chain : Chain}
    (built : context.chainAround scope record name ledger = .ok chain) {failure : ScanFailure}
    (h : chain.repair context.rules = .error failure) : context.Blocked failure := by
  unfold Chain.repair at h
  split at h
  · next condition failed =>
    cases h
    obtain ⟨⟨s, day⟩, hday, required, asked, bars⟩ := Chain.additions_error failed
    obtain ⟨laid, here, filled⟩ := chainAround_ok built
    obtain ⟨-, -, settled⟩ := Chain.fill_settled (Chain.layOut_fresh here).2.2 filled
    obtain ⟨hs, automatic, ⟨d, hd⟩, -⟩ := Chain.mem_repairDays.1 hday
    exact ⟨s.category, (place_of_chainAround built hs).1.known, automatic, required.code, condition,
      (settled s hs).required hd asked, bars, rfl⟩
  · cases h

/-- A visit to a ledger with proper days fails only if it is blocked, and leaves the days proper. -/
theorem visit_meets (context : ScanContext) (scope : ScanScope) {ledger : Ledger}
    (rostered : ledger.Rostered) (record : Absence) (name : CategoryName) :
    (context.visit scope record name ledger).Meets (fun _ after => after.Rostered) context.Blocked := by
  unfold visit
  cases built : context.chainAround scope record name ledger with
  | error error => exact rostered
  | ok chain =>
    dsimp only
    split
    · exact rostered
    · split
      · exact rostered
      · cases planned : chain.repair context.rules with
        | error failure => exact blocked_of_repair built planned
        | ok repair =>
          have carried := rostered.carryOut repair
          dsimp only
          split
          · trivial
          · next ran => exact (carried.error ran).elim
          · next ran => exact carried.ok ran

/-- The visits of an agenda fail only if one of them is blocked. -/
theorem visitAll_meets (context : ScanContext) (scope : ScanScope) (agenda : Agenda) {ledger : Ledger}
    (rostered : ledger.Rostered) :
    (context.visitAll scope agenda ledger).Meets (fun _ _ => True) context.Blocked := by
  induction agenda using visitAll.induct scope generalizing ledger with
  | case1 agenda next front =>
    rw [visitAll_none front]
    trivial
  | case2 agenda record name next front covered ih =>
    rw [visitAll_some front, if_pos covered]
    refine (visit_meets context scope rostered record name).bind fun visit between roster => ?_
    exact (ih visit roster).bind fun _ _ _ => trivial
  | case3 agenda record name next front uncovered ih =>
    rw [visitAll_some front, if_neg uncovered]
    exact ih rostered

/-- A scan of a ledger with proper days fails only if it is blocked. -/
theorem scan_meets (context : ScanContext) (scope : ScanScope) {ledger : Ledger}
    (rostered : ledger.Rostered) :
    (context.scan scope ledger).Meets (fun _ _ => True) context.Blocked := by
  have visited := visitAll_meets context scope (context.agenda scope) rostered
  unfold scan
  dsimp only
  split
  · trivial
  · next ran => exact visited.error ran
  · next visits between ran =>
    have reconciled := between.reconcile_unrefused (removedBy visits)
      (context.findingsOf scope ledger visits) ((context.agenda scope).records.map (·.id))
    split
    · trivial
    · next refused => exact (reconciled.error refused).elim
    · trivial

/-- How scans of a ledger can fail: never by a refusal of the ledger, only at a code that an automatic category
replaces with and that cannot be written. The transactions around a scan then leave the ledger as it was. -/
structure FailsOnlyBlocked (context : ScanContext) (ledger : Ledger) : Prop where
  unrefused {scope : ScanScope} {refusal : LedgerRefusal} {after : Ledger} :
    context.scan scope ledger ≠ .error (.store refusal) after
  blocked {scope : ScanScope} {failure : ScanFailure} {after : Ledger} :
    context.scan scope ledger = .error failure after → context.Blocked failure
  restored {scope : ScanScope} {failure : ScanFailure} {after : Ledger} :
    context.scanAtomically scope ledger = .error failure after → context.Blocked failure ∧ after = ledger
  rescanned {directory : Directory} {person : PersonId} {start : Date} {failure : ScanFailure}
    {after : Ledger} : context.scanFrom directory person start ledger = .error failure after →
    context.Blocked failure ∧ after = ledger

/-- Over a ledger whose attendance days have identifiers of their own, below the next, a scan of whatever
records fails only at a replacing code that is not in the catalog or may not justify nothing in exactly one
way; in a transaction it then leaves no trace. -/
theorem scan_fails_only_blocked (context : ScanContext) {ledger : Ledger} (rostered : ledger.Rostered) :
    context.FailsOnlyBlocked ledger := by
  have blocked {scope : ScanScope} {failure : ScanFailure} {after : Ledger}
      (h : context.scan scope ledger = .error failure after) : context.Blocked failure :=
    (scan_meets context scope rostered).error h
  refine ⟨fun {scope refusal after} h => ?_, blocked, fun h => ?_, fun h => ?_⟩
  · obtain ⟨-, -, -, code, condition, -, -, other⟩ := blocked h
    cases other
  · obtain ⟨restored, between, failed⟩ := Ledger.atomically_error h
    exact ⟨blocked failed, restored⟩
  · obtain ⟨restored, between, failed⟩ := Ledger.atomically_error h
    exact ⟨blocked failed, restored⟩

/-- Overtime month by month, where the code for two hours of rest is not in the catalog. -/
def barred : ScanContext :=
  ⟨.ofLists [{ Chain.sampleHourly with period := .month }] [⟨"09H1", "", [.nothing]⟩], .unknown, .standard⟩

/-- One hour of overtime in April, for which the wrong record was written, and two hours in May. -/
def barredDocument : LedgerDocument :=
  { sampleDocument with
    absences := [⟨⟨1, "09M", .sample 2024 4 1, .specifiedMinutes, some 60, none⟩, 1⟩,
      ⟨⟨1, "09H2", .sample 2024 4 1, .nothing, none, none⟩, 2⟩,
      ⟨⟨1, "09M", .sample 2024 5 1, .specifiedMinutes, some 120, none⟩, 3⟩]
    troubles := []
    days := [⟨7, 2, .sample 2024 4 1⟩] }

def barredScope : ScanScope :=
  .ofLedger (.ofDocument barredDocument) barredDocument.persons 1 .minimum

def barredHalfway : Bool :=
  match barred.scan barredScope (.ofDocument barredDocument) with
  | .error failure between => decide (failure = .precondition (.codeNotInCatalog "09H2")) &&
      !between.holds 2 && decide (between.day? 1 (.sample 2024 4 1) = some 8) &&
      decide (between.mutations = 3)
  | _ => false

/-- The scan of the sample stops at the code that cannot be written; nothing is left then of the repair that it
has made, if it runs in a transaction. -/
theorem barred_rolled_back : (Ledger.ofDocument barredDocument).Rostered ∧
    (∃ between, barred.scan barredScope (.ofDocument barredDocument) =
        .error (.precondition (.codeNotInCatalog "09H2")) between ∧
      barred.Blocked (.precondition (.codeNotInCatalog "09H2")) ∧
      between.holds 2 = false ∧ between.day? 1 (.sample 2024 4 1) = some 8 ∧ between.mutations = 3) ∧
    barred.scanAtomically barredScope (.ofDocument barredDocument) =
      .error (.precondition (.codeNotInCatalog "09H2")) (.ofDocument barredDocument) := by
  have days : (Ledger.ofDocument barredDocument).days.values = [7] := by cbv
  have rostered : (Ledger.ofDocument barredDocument).Rostered :=
    Ledger.rostered_ofDocument (days ▸ List.nodup_singleton 7)
  have fails := scan_fails_only_blocked barred rostered
  have run : barredHalfway = true := by cbv
  unfold barredHalfway at run
  cases scanned : barred.scan barredScope (.ofDocument barredDocument) with
  | ok report after =>
    rw [scanned] at run
    cases run
  | exhausted =>
    rw [scanned] at run
    cases run
  | error failure between =>
    rw [scanned] at run
    simp only [Bool.and_eq_true, decide_eq_true_eq, Bool.not_eq_true'] at run
    obtain ⟨⟨⟨rfl, gone⟩, day⟩, count⟩ := run
    refine ⟨rostered, ⟨between, rfl, fails.blocked scanned, gone, day, count⟩, ?_⟩
    unfold scanAtomically Ledger.atomically
    simp only [scanned]

end ScanContext

end Entitlement
