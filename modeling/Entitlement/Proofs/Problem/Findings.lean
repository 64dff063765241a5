import Mathlib.Data.List.Nodup
import Entitlement.Problem.Findings

/-!
What findings hold: adding a problem adds that pair, and a merge holds the pairs of both sides.
-/

namespace Entitlement

namespace Findings

theorem contains_addProblem {findings : Findings} {id id' : AbsenceId} {problem problem' : Problem} :
    (findings.addProblem id problem).contains id' problem' = true ↔
      findings.contains id' problem' = true ∨ (id' = id ∧ problem' = problem) := by
  simp only [contains, addProblem, problemsOf, OrderedMap.get?_insert, OrderedSet.contains_iff]
  by_cases same : id' = id
  · rw [if_pos same, Option.getD_some, OrderedSet.mem_insert, same]
    exact or_comm.trans (or_congr_right (and_iff_right rfl).symm)
  · rw [if_neg same]
    simp [same]

@[simp] theorem contains_addCritical (findings : Findings) (error : CriticalError) (id : AbsenceId)
    (problem : Problem) :
    (findings.addCritical error).contains id problem = findings.contains id problem := by
  unfold addCritical
  split <;> rfl

theorem mem_addCritical {findings : Findings} {error error' : CriticalError} :
    error' ∈ (findings.addCritical error).critical ↔ error' ∈ findings.critical ∨ error' = error := by
  unfold addCritical
  split
  · next held =>
    constructor
    · exact .inl
    · rintro (old | rfl)
      · exact old
      · exact held
  · rw [List.mem_append, List.mem_singleton]

theorem mem_pairs {findings : Findings} {id : AbsenceId} {problem : Problem} :
    (id, problem) ∈ findings.pairs ↔ findings.contains id problem = true := by
  simp only [pairs, List.mem_flatMap, List.mem_map, Prod.mk.injEq, contains, problemsOf,
    OrderedSet.contains_iff]
  constructor
  · rintro ⟨⟨_, problems⟩, entry, _, held, rfl, rfl⟩
    rw [OrderedMap.get?_eq_some_iff.2 entry]
    exact held
  · intro held
    cases found : findings.problems.get? id with
    | none =>
      rw [found] at held
      exact absurd held OrderedSet.mem_empty
    | some problems =>
      rw [found] at held
      exact ⟨(id, problems), OrderedMap.get?_eq_some_iff.1 found, problem, held, rfl, rfl⟩

private theorem contains_addPairs (pairs : List (AbsenceId × Problem)) (findings : Findings)
    (id : AbsenceId) (problem : Problem) :
    (pairs.foldl (fun findings p => findings.addProblem p.1 p.2) findings).contains id problem = true ↔
      findings.contains id problem = true ∨ (id, problem) ∈ pairs := by
  induction pairs generalizing findings with
  | nil => simp
  | cons p rest ih =>
    rw [List.foldl_cons, ih, contains_addProblem, List.mem_cons, or_assoc]
    exact or_congr_right (or_congr_left (by rw [Prod.ext_iff]))

theorem contains_addCriticals (errors : List CriticalError) (findings : Findings)
    (id : AbsenceId) (problem : Problem) :
    (errors.foldl addCritical findings).contains id problem = findings.contains id problem := by
  induction errors generalizing findings with
  | nil => rfl
  | cons error rest ih => rw [List.foldl_cons, ih, contains_addCritical]

theorem contains_merge {findings other : Findings} {id : AbsenceId} {problem : Problem} :
    (findings.merge other).contains id problem = true ↔
      findings.contains id problem = true ∨ other.contains id problem = true := by
  rw [merge, contains_addCriticals, contains_addPairs, mem_pairs]

theorem mem_addCriticals {errors : List CriticalError} {findings : Findings} {error : CriticalError} :
    error ∈ (errors.foldl addCritical findings).critical ↔
      error ∈ findings.critical ∨ error ∈ errors := by
  induction errors generalizing findings with
  | nil => simp
  | cons e rest ih => rw [List.foldl_cons, ih, mem_addCritical, List.mem_cons, or_assoc]

theorem nodup_addCritical {findings : Findings} (h : findings.critical.Nodup) (error : CriticalError) :
    (findings.addCritical error).critical.Nodup := by
  unfold addCritical
  split
  · exact h
  · next new =>
    exact List.nodup_append.2 ⟨h, List.nodup_singleton _, fun e he e' he' => by
      rw [List.mem_singleton.1 he']
      rintro rfl
      exact new he⟩

theorem critical_addPairs (pairs : List (AbsenceId × Problem)) (findings : Findings) :
    (pairs.foldl (fun findings p => findings.addProblem p.1 p.2) findings).critical =
      findings.critical := by
  induction pairs generalizing findings with
  | nil => rfl
  | cons p rest ih => exact ih (findings.addProblem p.1 p.2)

theorem mem_critical_merge {findings other : Findings} {error : CriticalError} :
    error ∈ (findings.merge other).critical ↔ error ∈ findings.critical ∨ error ∈ other.critical := by
  rw [merge, mem_addCriticals, critical_addPairs]

theorem nodup_merge {findings : Findings} (h : findings.critical.Nodup) (other : Findings) :
    (findings.merge other).critical.Nodup := by
  have run (errors : List CriticalError) {findings : Findings} (h : findings.critical.Nodup) :
      (errors.foldl addCritical findings).critical.Nodup := by
    induction errors generalizing findings with
    | nil => exact h
    | cons error rest ih => exact ih (nodup_addCritical h error)
  apply run
  rw [critical_addPairs]
  exact h

/-- Findings gathered from several sources hold what any of them holds. -/
theorem contains_foldl_merge {α : Type} (source : α → Findings) (l : List α) (findings : Findings)
    (id : AbsenceId) (problem : Problem) :
    (l.foldl (fun findings a => findings.merge (source a)) findings).contains id problem = true ↔
      findings.contains id problem = true ∨ ∃ a ∈ l, (source a).contains id problem = true := by
  induction l generalizing findings with
  | nil => simp
  | cons a rest ih =>
    rw [List.foldl_cons, ih, contains_merge, List.exists_mem_cons_iff, or_assoc]

theorem mem_critical_foldl_merge {α : Type} (source : α → Findings) {l : List α} {findings : Findings}
    {error : CriticalError} :
    error ∈ (l.foldl (fun findings a => findings.merge (source a)) findings).critical ↔
      error ∈ findings.critical ∨ ∃ a ∈ l, error ∈ (source a).critical := by
  induction l generalizing findings with
  | nil => simp
  | cons a rest ih =>
    rw [List.foldl_cons, ih, mem_critical_merge, List.exists_mem_cons_iff, or_assoc]

theorem nodup_foldl_merge {α : Type} (source : α → Findings) (l : List α) {findings : Findings}
    (h : findings.critical.Nodup) :
    (l.foldl (fun findings a => findings.merge (source a)) findings).critical.Nodup := by
  induction l generalizing findings with
  | nil => exact h
  | cons a rest ih => exact ih (nodup_merge h (source a))

end Findings

end Entitlement
