import Mathlib.Data.List.Induction
import Mathlib.Logic.Function.Basic
import Entitlement.Proofs.Problem.Findings

/-!
Several boxes of findings and any calls on them: a problem or a critical error comes to a box, or a box absorbs
another. A box is the union, without repeats, of all that has come to it or to a box when it was absorbed, with the
critical errors in the order of their first arrival. So equality, emptiness and the laws of merging can be read off
what has come.
-/

namespace Entitlement

namespace Findings

section

variable {α : Type} [DecidableEq α]

/-- A value at the end counts only if it has not occurred. -/
theorem eraseDups_concat (l : List α) (a : α) :
    (l ++ [a]).eraseDups = if a ∈ l then l.eraseDups else l.eraseDups ++ [a] := by
  rw [List.eraseDups_append]
  split
  · next old => simp [List.removeAll, old]
  · next new => simp [List.removeAll, new, List.eraseDups_cons]

/-- Repeats within the later part may be left out first. -/
theorem eraseDups_append_eraseDups (l m : List α) : (l ++ m.eraseDups).eraseDups = (l ++ m).eraseDups := by
  induction m using List.reverseRecOn with
  | nil => rfl
  | append_singleton m a ih =>
    rw [eraseDups_concat m a, ← List.append_assoc, eraseDups_concat (l ++ m) a, ← ih]
    by_cases old : a ∈ m
    · rw [if_pos old, if_pos (List.mem_append_right l old)]
    · rw [if_neg old, ← List.append_assoc, eraseDups_concat]
      simp only [List.mem_append, List.mem_eraseDups]

/-- A later part in which nothing new occurs counts for nothing. -/
theorem eraseDups_append_of_subset {l m : List α} (h : m ⊆ l) : (l ++ m).eraseDups = l.eraseDups := by
  have nothing : m.removeAll l = [] := List.filter_eq_nil_iff.2 fun a ha => by simp [h ha]
  rw [List.eraseDups_append, nothing, List.eraseDups_nil, List.append_nil]

end

/-- All that has come to a box, in order of arrival and with its repeats. -/
structure Arrivals where
  pairs : List (AbsenceId × Problem)
  critical : List CriticalError

namespace Arrivals

instance : EmptyCollection Arrivals := ⟨⟨[], []⟩⟩

instance : Append Arrivals := ⟨fun a b => ⟨a.pairs ++ b.pairs, a.critical ++ b.critical⟩⟩

def ofProblem (absence : AbsenceId) (problem : Problem) : Arrivals := ⟨[(absence, problem)], []⟩

def ofCritical (error : CriticalError) : Arrivals := ⟨[], [error]⟩

variable (a b c : Arrivals)

@[simp] theorem pairs_append : (a ++ b).pairs = a.pairs ++ b.pairs := rfl

@[simp] theorem critical_append : (a ++ b).critical = a.critical ++ b.critical := rfl

theorem append_assoc : a ++ b ++ c = a ++ (b ++ c) :=
  congrArg₂ mk (List.append_assoc ..) (List.append_assoc ..)

end Arrivals

inductive Call where
  | addProblem (box : Nat) (absence : AbsenceId) (problem : Problem)
  | addCritical (box : Nat) (error : CriticalError)
  | absorb (box other : Nat)

def Call.run : Call → (Nat → Findings) → Nat → Findings
  | .addProblem box absence problem, boxes =>
    Function.update boxes box ((boxes box).addProblem absence problem)
  | .addCritical box error, boxes => Function.update boxes box ((boxes box).addCritical error)
  | .absorb box other, boxes => Function.update boxes box ((boxes box).merge (boxes other))

/-- What has come to the boxes after a call. All that had come to a box comes to the one that absorbs it. -/
def Call.bring : Call → (Nat → Arrivals) → Nat → Arrivals
  | .addProblem box absence problem, arrived =>
    Function.update arrived box (arrived box ++ .ofProblem absence problem)
  | .addCritical box error, arrived => Function.update arrived box (arrived box ++ .ofCritical error)
  | .absorb box other, arrived => Function.update arrived box (arrived box ++ arrived other)

def after (calls : List Call) : Nat → Findings :=
  calls.foldl (fun boxes call => call.run boxes) fun _ => ∅

def arrived (calls : List Call) : Nat → Arrivals :=
  calls.foldl (fun arrived call => call.bring arrived) fun _ => ∅

def Filled (findings : Findings) : Prop :=
  ∀ absence problems, findings.problems.get? absence = some problems → problems ≠ ∅

variable {findings other : Findings} {absence : AbsenceId} {problem : Problem}

theorem filled_empty : Filled ∅ := by
  intro absence problems found
  cases found

theorem Filled.addProblem (filled : findings.Filled) (absence : AbsenceId) (problem : Problem) :
    (findings.addProblem absence problem).Filled := by
  intro id problems found
  simp only [Findings.addProblem, OrderedMap.get?_insert] at found
  split at found
  · rintro rfl
    have held : problem ∈ (findings.problemsOf absence).insert problem := OrderedSet.mem_insert.2 (.inl rfl)
    rw [Option.some.inj found] at held
    exact OrderedSet.mem_empty held
  · exact filled id problems found

theorem problems_addCritical (findings : Findings) (error : CriticalError) :
    (findings.addCritical error).problems = findings.problems := by
  unfold Findings.addCritical
  split <;> rfl

theorem Filled.addCritical (filled : findings.Filled) (error : CriticalError) :
    (findings.addCritical error).Filled := by
  intro absence problems found
  rw [problems_addCritical] at found
  exact filled absence problems found

theorem Filled.merge (filled : findings.Filled) (other : Findings) : (findings.merge other).Filled := by
  have pairs (l : List (AbsenceId × Problem)) {f : Findings} (filled : f.Filled) :
      (l.foldl (fun findings p => findings.addProblem p.1 p.2) f).Filled := by
    induction l generalizing f with
    | nil => exact filled
    | cons p rest ih => exact ih (filled.addProblem p.1 p.2)
  have errors (l : List CriticalError) {f : Findings} (filled : f.Filled) :
      (l.foldl Findings.addCritical f).Filled := by
    induction l generalizing f with
    | nil => exact filled
    | cons error rest ih => exact ih (filled.addCritical error)
  exact errors _ (pairs _ filled)

/-- What is stored for a record is known from the problems it has. -/
theorem Filled.get?_eq (filled : findings.Filled) (absence : AbsenceId) :
    findings.problems.get? absence =
      if findings.problemsOf absence = ∅ then none else some (findings.problemsOf absence) := by
  unfold problemsOf
  cases found : findings.problems.get? absence with
  | none => rfl
  | some problems => exact (if_neg (filled absence problems found)).symm

/-- Findings in which every record has a problem are told apart by what they hold. -/
theorem Filled.ext (filled : findings.Filled) (filled' : other.Filled)
    (same : ∀ absence problem, findings.contains absence problem = other.contains absence problem)
    (critical : findings.critical = other.critical) : findings = other := by
  have problemsOf (absence : AbsenceId) : findings.problemsOf absence = other.problemsOf absence := by
    refine OrderedSet.ext fun problem => ?_
    rw [← OrderedSet.contains_iff, ← OrderedSet.contains_iff]
    exact Bool.eq_iff_iff.1 (same absence problem)
  have problems : findings.problems = other.problems :=
    OrderedMap.ext fun absence => by rw [filled.get?_eq, filled'.get?_eq, problemsOf]
  cases findings
  cases other
  exact congrArg₂ mk problems critical

theorem isEmpty_iff : findings.isEmpty = true ↔ findings = ∅ := by
  obtain ⟨⟨entries, _⟩, critical⟩ := findings
  rw [isEmpty, OrderedMap.isEmpty, Bool.and_eq_true, List.isEmpty_iff, List.isEmpty_iff]
  constructor
  · rintro ⟨rfl, rfl⟩
    rfl
  · rintro ⟨⟩
    exact ⟨rfl, rfl⟩

/-- Critical errors added one by one are those that come first, once each. -/
theorem critical_addCriticals (errors : List CriticalError) {l : List CriticalError}
    (h : findings.critical = l.eraseDups) :
    (errors.foldl addCritical findings).critical = (l ++ errors).eraseDups := by
  induction errors generalizing findings l with
  | nil => simpa using h
  | cons error rest ih =>
    have step : (findings.addCritical error).critical = (l ++ [error]).eraseDups := by
      rw [eraseDups_concat, ← h, addCritical]
      simp only [h, List.mem_eraseDups]
      split <;> simp only [h]
    rw [List.foldl_cons, ih step, List.append_assoc, List.singleton_append]

/-- Findings are the union of what has come: they hold exactly these pairs, list no record without a problem, and
list each critical error once, in the order of the first arrivals. -/
structure Gathers (findings : Findings) (arrivals : Arrivals) : Prop where
  pairs {absence : AbsenceId} {problem : Problem} :
    findings.contains absence problem = true ↔ (absence, problem) ∈ arrivals.pairs
  filled : findings.Filled
  once : findings.critical.Nodup
  critical : findings.critical = arrivals.critical.eraseDups

namespace Gathers

variable {a b : Arrivals}

theorem empty : Gathers ∅ ∅ where
  pairs {absence problem} := by
    rw [← mem_pairs]
    exact Iff.rfl
  filled := filled_empty
  once := .nil
  critical := rfl

theorem addProblem (gathers : findings.Gathers a) (absence : AbsenceId) (problem : Problem) :
    (findings.addProblem absence problem).Gathers (a ++ .ofProblem absence problem) where
  pairs {absence problem} := by
    rw [contains_addProblem, gathers.pairs, Arrivals.pairs_append, List.mem_append]
    exact or_congr_right (by rw [Arrivals.ofProblem, List.mem_singleton, Prod.mk.injEq])
  filled := gathers.filled.addProblem absence problem
  once := gathers.once
  critical := gathers.critical.trans (by rw [Arrivals.critical_append, Arrivals.ofProblem, List.append_nil])

theorem addCritical (gathers : findings.Gathers a) (error : CriticalError) :
    (findings.addCritical error).Gathers (a ++ .ofCritical error) where
  pairs {absence problem} := by
    rw [contains_addCritical, gathers.pairs, Arrivals.pairs_append, Arrivals.ofCritical, List.append_nil]
  filled := gathers.filled.addCritical error
  once := nodup_addCritical gathers.once error
  critical := critical_addCriticals [error] gathers.critical

/-- A merge is the union of what has come to both sides. -/
theorem merge (gathers : findings.Gathers a) (gathers' : other.Gathers b) :
    (findings.merge other).Gathers (a ++ b) where
  pairs {absence problem} := by
    rw [contains_merge, gathers.pairs, gathers'.pairs, Arrivals.pairs_append, List.mem_append]
  filled := gathers.filled.merge other
  once := nodup_merge gathers.once other
  critical := by
    have kept := (critical_addPairs other.pairs findings).trans gathers.critical
    rw [Findings.merge, critical_addCriticals other.critical kept, gathers'.critical, eraseDups_append_eraseDups]
    rfl

/-- The same pairs and the same first arrivals make the same findings. -/
theorem unique (gathers : findings.Gathers a) (gathers' : other.Gathers b)
    (pairs : ∀ pair, pair ∈ a.pairs ↔ pair ∈ b.pairs)
    (critical : a.critical.eraseDups = b.critical.eraseDups) : findings = other := by
  refine gathers.filled.ext gathers'.filled (fun absence problem => ?_) ?_
  · rw [Bool.eq_iff_iff, gathers.pairs, gathers'.pairs]
    exact pairs (absence, problem)
  · rw [gathers.critical, critical, gathers'.critical]

/-- Findings absorb no more of others that have come before. -/
theorem merge_of_subset (gathers : findings.Gathers a) (gathers' : other.Gathers b) (pairs : b.pairs ⊆ a.pairs)
    (critical : b.critical ⊆ a.critical) : findings.merge other = findings := by
  refine (gathers.merge gathers').unique gathers (fun pair => ?_) (eraseDups_append_of_subset critical)
  rw [Arrivals.pairs_append, List.mem_append]
  exact or_iff_left_of_imp fun mem => pairs mem

/-- Findings are empty just if nothing has come. -/
theorem isEmpty_iff (gathers : findings.Gathers a) : findings.isEmpty = true ↔ a = ∅ := by
  rw [Findings.isEmpty_iff]
  constructor
  · rintro rfl
    obtain ⟨pairs, critical⟩ := a
    have none : pairs = [] := List.eq_nil_iff_forall_not_mem.2 fun pair mem =>
      List.not_mem_nil (empty.pairs.1 (gathers.pairs.2 mem))
    have calm : critical = [] := List.eq_nil_iff_forall_not_mem.2 fun error mem => by
      rw [← List.mem_eraseDups, ← gathers.critical] at mem
      exact List.not_mem_nil mem
    exact congrArg₂ Arrivals.mk none calm
  · rintro rfl
    exact gathers.unique empty (fun _ => Iff.rfl) rfl

end Gathers

/-- Each call brings to a box what its findings gather. -/
theorem Call.gathers {boxes : Nat → Findings} {arrived : Nat → Arrivals}
    (gathers : ∀ box, (boxes box).Gathers (arrived box)) (call : Call) (box : Nat) :
    (call.run boxes box).Gathers (call.bring arrived box) := by
  have update {target : Nat} {f : Findings} {l : Arrivals} (h : f.Gathers l) :
      (Function.update boxes target f box).Gathers (Function.update arrived target l box) := by
    by_cases here : box = target
    · subst here
      rwa [Function.update_self, Function.update_self]
    · rw [Function.update_of_ne here, Function.update_of_ne here]
      exact gathers box
  cases call with
  | addProblem target absence problem => exact update ((gathers target).addProblem absence problem)
  | addCritical target error => exact update ((gathers target).addCritical error)
  | absorb target other => exact update ((gathers target).merge (gathers other))

theorem after_gathers (calls : List Call) (box : Nat) : (after calls box).Gathers (arrived calls box) := by
  have run {boxes : Nat → Findings} {arrived : Nat → Arrivals}
      (gathers : ∀ box, (boxes box).Gathers (arrived box)) :
      (calls.foldl (fun boxes call => call.run boxes) boxes box).Gathers
        (calls.foldl (fun arrived call => call.bring arrived) arrived box) := by
    induction calls generalizing boxes arrived with
    | nil => exact gathers box
    | cons call rest ih => exact ih (call.gathers gathers)
  exact run fun _ => .empty

/-- What the boxes are after some calls. Each is the union of what has come to it. Two of them are equal just if
they hold the same pairs and list the same critical errors. A box that absorbs itself, or another one again, does
not change; it makes no difference whether it absorbs two boxes one by one or merged into one; and which of two
boxes absorbs the other matters only for the order of the critical errors. A box is empty just if nothing has ever
come to it. -/
structure Unites (calls : List Call) : Prop where
  gathers (box : Nat) : (after calls box).Gathers (arrived calls box)
  equal (a b : Nat) : after calls a = after calls b ↔
    (∀ absence problem, (after calls a).contains absence problem = (after calls b).contains absence problem) ∧
      (after calls a).critical = (after calls b).critical
  again (a b : Nat) : ((after calls a).merge (after calls b)).merge (after calls b) =
    (after calls a).merge (after calls b)
  itself (a : Nat) : (after calls a).merge (after calls a) = after calls a
  associative (a b c : Nat) : ((after calls a).merge (after calls b)).merge (after calls c) =
    (after calls a).merge ((after calls b).merge (after calls c))
  either (a b : Nat) (absence : AbsenceId) (problem : Problem) :
    ((after calls a).merge (after calls b)).contains absence problem =
      ((after calls b).merge (after calls a)).contains absence problem
  either_critical (a b : Nat) (error : CriticalError) :
    error ∈ ((after calls a).merge (after calls b)).critical ↔
      error ∈ ((after calls b).merge (after calls a)).critical
  isEmpty (box : Nat) : (after calls box).isEmpty = true ↔ arrived calls box = ∅

/-- Whatever calls are made, the boxes are the unions of what has come to them. -/
theorem after_unites (calls : List Call) : Unites calls := by
  have gathers := after_gathers calls
  exact {
    gathers := gathers
    equal := fun a b => by
      constructor
      · intro same
        simp only [same, implies_true, and_self]
      · exact fun ⟨same, critical⟩ => (gathers a).filled.ext (gathers b).filled same critical
    again := fun a b => ((gathers a).merge (gathers b)).merge_of_subset (gathers b)
      (List.subset_append_right _ _) (List.subset_append_right _ _)
    itself := fun a => (gathers a).merge_of_subset (gathers a) (List.Subset.refl _) (List.Subset.refl _)
    associative := fun a b c => by
      have left := ((gathers a).merge (gathers b)).merge (gathers c)
      rw [Arrivals.append_assoc] at left
      exact left.unique ((gathers a).merge ((gathers b).merge (gathers c))) (fun _ => Iff.rfl) rfl
    either := fun a b absence problem => by
      rw [Bool.eq_iff_iff, contains_merge, contains_merge, or_comm]
    either_critical := fun a b error => by
      rw [mem_critical_merge, mem_critical_merge, or_comm]
    isEmpty := fun box => (gathers box).isEmpty_iff }

end Findings

end Entitlement
