import Mathlib.Data.List.Basic
import Entitlement.Proofs.Ordered.Relabel
import Entitlement.Replacing.Effect
import Entitlement.Scan.Report

/-!
Renumbering: the identifiers from one on become those from another one on, and those below stay. What a ledger
gives out after other persons have been written to it differs from what it would have given out in just this
way. An identifier stands in records and annotations, in whatever is computed from them, and in the ledger
itself. Upward the order of all identifiers is kept, so sorted contents can be renumbered in place.
-/

namespace Entitlement

/-- Identifiers from `first` on become those from `second` on. -/
structure Renumbering where
  first : Nat
  second : Nat

namespace Renumbering

variable (r : Renumbering)

def number (id : Nat) : Nat :=
  if id < r.first then id else id - r.first + r.second

theorem number_old {id : Nat} (old : id < r.first) : r.number id = id :=
  if_pos old

/-- A record. An old one may refer to a day that is not there, and keeps what it says of it. -/
def record (a : Absence) : Absence :=
  { a with
    id := r.number a.id
    day := if a.id < r.first then a.day else a.day.map r.number }

theorem record_old {a : Absence} (old : a.id < r.first) : r.record a = a := by
  unfold record
  rw [r.number_old old, if_pos old]

def draft (draft : AbsenceDraft) : AbsenceDraft :=
  { draft with day := draft.day.map r.number }

def trouble (t : Trouble) : Trouble :=
  ⟨r.number t.id, r.number t.absence, t.problem⟩

def charge (charge : Charge) : Charge :=
  { charge with absence := r.record charge.absence }

def day (day : PeriodDay) : PeriodDay :=
  { day with
    charges := day.charges.map r.charge
    completions := day.completions.map fun e => (r.record e.1, e.2)
    replacings := day.replacings.map r.record }

def error (error : CriticalError) : CriticalError :=
  { error with absence := error.absence.map r.number }

def attempt {α β : Type} (answer : α → β) : Except CriticalError α → Except CriticalError β
  | .ok a => .ok (answer a)
  | .error error => .error (r.error error)

def removal (removal : Removal) : Removal :=
  { removal with absence := r.number removal.absence }

def repair (repair : Repair) : Repair :=
  { repair with removals := repair.removals.map r.removal }

def effect (effect : RepairEffect) : RepairEffect :=
  ⟨effect.deleted.map r.number, effect.skipped.map r.number, effect.inserted.map r.record⟩

/-- A report of old records: only what the scan has written has new identifiers, and the errors it has met when
it came upon that again. -/
def report (report : Report) : Report :=
  { report with
    critical := report.critical.map r.error
    inserted := report.inserted.map r.record
    deleted := report.deleted.map r.number
    skipped := report.skipped.map r.number }

def reverse : Renumbering :=
  ⟨r.second, r.first⟩

end Renumbering

structure Shift extends Renumbering where
  positive : 0 < first
  upward : first ≤ second

namespace Shift

open Renumbering

variable (s : Shift)

def gap : Nat :=
  s.second - s.first

theorem number_new {id : Nat} (new : s.first ≤ id) : s.number id = id + s.gap := by
  have up := s.upward
  unfold number gap
  rw [if_neg (Nat.not_lt.2 new)]
  omega

theorem number_lt {a b : Nat} : s.number a < s.number b ↔ a < b := by
  by_cases ha : a < s.first
  · by_cases hb : b < s.first
    · rw [s.number_old ha, s.number_old hb]
    · rw [s.number_old ha, s.number_new (Nat.not_lt.1 hb)]
      omega
  · by_cases hb : b < s.first
    · rw [s.number_new (Nat.not_lt.1 ha), s.number_old hb]
      omega
    · rw [s.number_new (Nat.not_lt.1 ha), s.number_new (Nat.not_lt.1 hb)]
      omega

theorem number_le {a b : Nat} : s.number a ≤ s.number b ↔ a ≤ b := by
  rw [← Nat.not_lt, number_lt, Nat.not_lt]

theorem embeds : Ordered.Embeds s.number :=
  fun _ _ => decide_eq_decide.2 s.number_lt

theorem number_inj {a b : Nat} : s.number a = s.number b ↔ a = b :=
  ⟨s.embeds.injective, congrArg s.number⟩

theorem number_eq_old {id old : Nat} (h : old < s.first) : s.number id = old ↔ id = old := by
  rw [← s.number_inj (a := id) (b := old), s.number_old h]

/-- New identifiers stay new. -/
theorem number_lt_first {id : Nat} : s.number id < s.first ↔ id < s.first := by
  constructor
  · intro old
    refine Nat.not_le.1 fun new => ?_
    rw [s.number_new new] at old
    omega
  · intro old
    rw [s.number_old old]
    exact old

theorem number_reverse : Function.LeftInverse s.reverse.number s.number := by
  intro id
  have up := s.upward
  by_cases old : id < s.first
  · rw [s.number_old old]
    exact s.reverse.number_old (Nat.lt_of_lt_of_le old up)
  · rw [s.number_new (Nat.not_lt.1 old)]
    unfold number reverse gap
    rw [if_neg (by dsimp only; omega)]
    dsimp only
    omega

theorem number_lt_second {id : Nat} : s.number id < s.second ↔ id < s.first := by
  have up := s.upward
  by_cases old : id < s.first
  · rw [s.number_old old]
    exact iff_of_true (Nat.lt_of_lt_of_le old up) old
  · rw [s.number_new (Nat.not_lt.1 old)]
    refine iff_of_false ?_ old
    unfold gap
    omega

theorem record_reverse : Function.LeftInverse s.reverse.record s.record := by
  rintro ⟨⟨person, code, date, kind, minutes, day⟩, id⟩
  have early : s.number id < s.reverse.first ↔ id < s.first := s.number_lt_second
  simp only [record, early, s.number_reverse id]
  congr 2
  split
  · rfl
  · cases day with
    | none => rfl
    | some day => exact congrArg some (s.number_reverse day)

theorem trouble_reverse : Function.LeftInverse s.reverse.trouble s.trouble := by
  intro t
  simp only [trouble, s.number_reverse _]

theorem error_reverse : Function.LeftInverse s.reverse.error s.error := by
  rintro ⟨category, date, absence, fault⟩
  cases absence with
  | none => rfl
  | some id => simp only [error, Option.map_some, s.number_reverse id]

theorem report_reverse : Function.LeftInverse s.reverse.report s.report := by
  intro report
  simp only [Renumbering.report, s.record_reverse.list_map _, s.error_reverse.list_map _,
    s.number_reverse.list_map _]

def findings (findings : Findings) : Findings :=
  ⟨findings.problems.relabel s.embeds fun p => p, findings.critical.map s.error⟩

def period (period : Period) : Period :=
  { period with
    days := period.days.relabel .same s.day
    findings := s.findings period.findings }

def chain (chain : Chain) : Chain :=
  { chain with
    periods := chain.periods.map s.period
    findings := s.findings chain.findings
    participants := chain.participants.relabel s.embeds }

def result : VisitResult → VisitResult
  | .childMissing => .childMissing
  | .noPeriods => .noPeriods
  | .aborted error => .aborted (s.error error)
  | .repaired chain effect => .repaired (s.chain chain) (s.effect effect)

def visit (visit : Visit) : Visit :=
  ⟨s.record visit.record, visit.category, s.result visit.result⟩

def ledger (ledger : Ledger) : Ledger where
  absences := ledger.absences.relabel s.embeds s.record
  troubles := ledger.troubles.relabel s.embeds s.trouble
  days := ledger.days.relabel .same s.number
  nextId := s.number ledger.nextId
  mutations := ledger.mutations

theorem notAfter_record (a b : Absence) : (s.record a).notAfter (s.record b) = a.notAfter b := by
  unfold Absence.notAfter
  simp only [record, s.number_le]

theorem inOrder_records (l : List Absence) :
    Absence.inOrder (l.map s.record) = (Absence.inOrder l).map s.record :=
  (List.map_mergeSort fun a _ b _ => (s.notAfter_record a b).symm).symm

theorem error_injective {e e' : CriticalError} (same : s.error e = s.error e') : e = e' := by
  obtain ⟨category, date, absence, fault⟩ := e
  obtain ⟨category', date', absence', fault'⟩ := e'
  simp only [error, CriticalError.mk.injEq] at same ⊢
  obtain ⟨sameCategory, sameDate, sameAbsence, sameFault⟩ := same
  exact ⟨sameCategory, sameDate, Option.map_injective (fun _ _ => s.number_inj.1) sameAbsence, sameFault⟩

@[simp] theorem findings_empty : s.findings ∅ = ∅ := rfl

variable (f g : Findings)

theorem problemsOf_findings (id : AbsenceId) :
    (s.findings f).problemsOf (s.number id) = f.problemsOf id := by
  unfold Findings.problemsOf findings
  rw [OrderedMap.get?_relabel, Option.map_id']

theorem addProblem_findings (id : AbsenceId) (problem : Problem) :
    (s.findings f).addProblem (s.number id) problem = s.findings (f.addProblem id problem) := by
  unfold Findings.addProblem
  rw [problemsOf_findings]
  exact congrArg (Findings.mk · _) (OrderedMap.insert_relabel s.embeds (fun p => p) f.problems id _)

theorem addCritical_findings (error : CriticalError) :
    (s.findings f).addCritical (s.error error) = s.findings (f.addCritical error) := by
  have known : s.error error ∈ (s.findings f).critical ↔ error ∈ f.critical := by
    constructor
    · intro mem
      obtain ⟨e, he, same⟩ := List.mem_map.1 mem
      exact s.error_injective same ▸ he
    · exact List.mem_map_of_mem
  unfold Findings.addCritical
  simp only [known]
  split
  · rfl
  · simp only [findings, List.map_append, List.map_cons, List.map_nil]

theorem pairs_findings : (s.findings f).pairs = f.pairs.map fun e => (s.number e.1, e.2) := by
  simp only [Findings.pairs, findings, OrderedMap.relabel, List.flatMap_map, List.map_flatMap,
    List.map_map]
  rfl

theorem merge_findings : (s.findings f).merge (s.findings g) = s.findings (f.merge g) := by
  unfold Findings.merge
  rw [pairs_findings, List.foldl_map,
    List.foldl_hom s.findings fun f p => s.addProblem_findings f p.1 p.2]
  show List.foldl _ _ (g.critical.map s.error) = _
  rw [List.foldl_map, List.foldl_hom s.findings s.addCritical_findings]

end Shift

end Entitlement
