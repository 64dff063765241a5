import Entitlement.Proofs.Period.Days
import Entitlement.Proofs.Rule.Fitting

/-!
The walk over the days of a period that decides what each of them requires. Days on which nothing is
completed and nothing required may be left out, and the replacing records of a day may be exchanged:
neither changes what the walk requires elsewhere, nor the residual it ends with.
-/

namespace Entitlement

open OrderedMap

namespace PeriodDay

def withReplacings (day : PeriodDay) (records : List Absence) : PeriodDay :=
  { day with replacings := records }

theorem completed_of_nil {day : PeriodDay} (h : day.completions = []) : day.completed = 0 := by
  rw [completed, h]
  rfl

end PeriodDay

theorem Amount.add_zero (a : Amount) : a + 0 = a := by
  apply ext
  have lower := a.lower
  have upper := a.upper
  rw [add_val, zero_val]
  omega

namespace OrderedMap

/-- A value of a scan is the image of the value that stood under its key. -/
theorem mem_scanList {κ ν ν' σ : Type} {f : σ → κ → ν → σ × ν'} {s : σ} {l : List (κ × ν)}
    {e : κ × ν'} (h : e ∈ (scanList f s l).2) :
    ∃ s' v, (e.1, v) ∈ l ∧ e.2 = (f s' e.1 v).2 := by
  induction l generalizing s with
  | nil => simp [scanList] at h
  | cons first rest ih =>
      obtain ⟨k, v⟩ := first
      rcases List.mem_cons.1 h with rfl | h
      · exact ⟨s, v, by simp, rfl⟩
      · obtain ⟨s', w, hw, image⟩ := ih h
        exact ⟨s', w, by simp [hw], image⟩

/-- A scan may be cut at any entry: what stands before it is the scan of the entries before it, and the entry
is the image of the one under its key in the state they lead to. -/
theorem scanList_split {κ ν ν' σ : Type} {f : σ → κ → ν → σ × ν'} {s : σ} {l : List (κ × ν)}
    {before after : List (κ × ν')} {e : κ × ν'} (h : (scanList f s l).2 = before ++ e :: after) :
    ∃ first v rest, l = first ++ (e.1, v) :: rest ∧ (scanList f s first).2 = before ∧
      e.2 = (f (scanList f s first).1 e.1 v).2 := by
  induction before generalizing s l with
  | nil =>
    cases l with
    | nil => cases h
    | cons entry rest =>
      obtain ⟨k, v⟩ := entry
      cases h
      exact ⟨[], v, rest, rfl, rfl, rfl⟩
  | cons _ _ ih =>
      cases l with
      | nil => cases h
      | cons entry rest =>
        obtain ⟨k, v⟩ := entry
        obtain ⟨rfl, tail⟩ := List.cons.inj h
        obtain ⟨first, w, others, rfl, rfl, image⟩ := ih tail
        exact ⟨(k, v) :: first, w, others, rfl, rfl, image⟩

/-- What a scan leaves of every entry it leaves of all. -/
theorem scanList_map {κ ν ν' σ β : Type} {f : σ → κ → ν → σ × ν'} {g : ν → β} {h : ν' → β}
    (same : ∀ s k v, h (f s k v).2 = g v) (s : σ) (l : List (κ × ν)) :
    (scanList f s l).2.map (fun e => h e.2) = l.map fun e => g e.2 := by
  induction l generalizing s with
  | nil => rfl
  | cons e rest ih =>
    obtain ⟨k, v⟩ := e
    rw [scanList, List.map_cons, List.map_cons, ih, same]

end OrderedMap

namespace Period

/-- What settling does to a day: nothing before the initialization, a mark on a compromised day, and
otherwise the requirement that the residual allows. -/
theorem settleDay_cases (p : Period) (completion : Completion) (residual : Amount) (d : Date)
    (day : PeriodDay) :
    (day.beforeInitialization = true ∧ p.settleDay completion residual d day = (residual, day)) ∨
      (day.beforeInitialization = false ∧ p.isCompromisedOn d = true ∧
        p.settleDay completion residual d day =
          (residual, { day with compromised := true, required := none })) ∨
      (day.beforeInitialization = false ∧ p.isCompromisedOn d = false ∧
        ∃ after, after = ((completion.largestFitting (residual + day.completed)).elim
            (residual + day.completed) fun r => residual + day.completed - r.amount) ∧
          p.settleDay completion residual d day = (after, { day with
            required := completion.largestFitting (residual + day.completed)
            residualAfter := after })) := by
  unfold settleDay
  cases prior : day.beforeInitialization with
  | true => exact .inl ⟨rfl, by simp⟩
  | false =>
    cases compromised : p.isCompromisedOn d with
    | true => exact .inr (.inl ⟨rfl, rfl, by simp⟩)
    | false => exact .inr (.inr ⟨rfl, rfl, _, rfl, by simp⟩)

structure SameRecords (a b : PeriodDay) : Prop where
  date : a.date = b.date
  charges : a.charges = b.charges
  completions : a.completions = b.completions
  replacings : a.replacings = b.replacings
  beforeInitialization : a.beforeInitialization = b.beforeInitialization

theorem settleDay_same (p : Period) (completion : Completion) (residual : Amount) (d : Date)
    (day : PeriodDay) : SameRecords (p.settleDay completion residual d day).2 day := by
  rcases p.settleDay_cases completion residual d day with ⟨-, h⟩ | ⟨-, -, h⟩ | ⟨-, -, _, -, h⟩
  · rw [h]
    exact ⟨rfl, rfl, rfl, rfl, rfl⟩
  · rw [h]
    exact ⟨rfl, rfl, rfl, rfl, rfl⟩
  · rw [h]
    exact ⟨rfl, rfl, rfl, rfl, rfl⟩

/-- A day on which nothing is completed and nothing required passes the residual on. -/
theorem settleDay_idle {p : Period} {completion : Completion} {residual : Amount} {d : Date}
    {day : PeriodDay} (completed : day.completions = [])
    (idle : (p.settleDay completion residual d day).2.required = none) :
    (p.settleDay completion residual d day).1 = residual := by
  rcases p.settleDay_cases completion residual d day with ⟨-, h⟩ | ⟨-, -, h⟩ | ⟨-, -, after, hafter, h⟩
  · rw [h]
  · rw [h]
  · rw [h] at idle ⊢
    dsimp only at idle ⊢
    rw [idle] at hafter
    rw [hafter, PeriodDay.completed_of_nil completed, Amount.add_zero]
    rfl

/-- Which records replace on a day has no part in settling it. -/
theorem settleDay_withReplacings (p : Period) (completion : Completion) (residual : Amount)
    (d : Date) (day : PeriodDay) (records : List Absence) :
    p.settleDay completion residual d (day.withReplacings records) =
      ((p.settleDay completion residual d day).1,
        (p.settleDay completion residual d day).2.withReplacings records) := by
  have completed : (day.withReplacings records).completed = day.completed := rfl
  have prior : (day.withReplacings records).beforeInitialization = day.beforeInitialization := rfl
  unfold settleDay
  rw [completed, prior]
  split
  · rfl
  · split
    · rfl
    · rfl

/-- Idle days may be left out of a walk. -/
theorem walk_filter (p : Period) (completion : Completion) (keep : Date → Bool)
    (l : List (Date × PeriodDay)) (residual : Amount)
    (idle : ∀ e ∈ (scanList (p.settleDay completion) residual l).2, keep e.1 = false →
      e.2.completions = [] ∧ e.2.required = none) :
    scanList (p.settleDay completion) residual (l.filter fun e => keep e.1) =
      ((scanList (p.settleDay completion) residual l).1,
        (scanList (p.settleDay completion) residual l).2.filter fun e => keep e.1) := by
  induction l generalizing residual with
  | nil => rfl
  | cons first rest ih =>
      obtain ⟨d, day⟩ := first
      have tail := ih (p.settleDay completion residual d day).1
        fun e he => idle e (List.mem_cons_of_mem _ he)
      by_cases kept : keep d = true
      · simp only [scanList, List.filter_cons, kept, if_true, tail]
      · obtain ⟨completions, required⟩ := idle (d, (p.settleDay completion residual d day).2)
          List.mem_cons_self (Bool.eq_false_iff.2 kept)
        have passed := settleDay_idle
          ((p.settleDay_same completion residual d day).completions ▸ completions) required
        rw [passed] at tail
        simp only [scanList, List.filter_cons, kept, if_false, Bool.false_eq_true, passed, tail]

/-- The replacing records may be exchanged before a walk or after it. -/
theorem walk_withReplacings (p : Period) (completion : Completion) (records : Date → List Absence)
    (l : List (Date × PeriodDay)) (residual : Amount) :
    scanList (p.settleDay completion) residual
        (l.map fun e => (e.1, e.2.withReplacings (records e.1))) =
      ((scanList (p.settleDay completion) residual l).1,
        (scanList (p.settleDay completion) residual l).2.map
          fun e => (e.1, e.2.withReplacings (records e.1))) := by
  induction l generalizing residual with
  | nil => rfl
  | cons first rest ih =>
      simp only [List.map_cons, scanList, settleDay_withReplacings, ih]

def counts (day : PeriodDay) : Bool :=
  !day.beforeInitialization && !day.compromised

/-- The last day that counts holds the residual with which a walk ends. -/
theorem walk_end (p : Period) (completion : Completion) (l : List (Date × PeriodDay))
    (sound : ∀ e ∈ l, e.2.compromised = false) (residual : Amount) :
    ((((scanList (p.settleDay completion) residual l).2.map (·.2)).filter counts).getLast?).elim
      residual (·.residualAfter) = (scanList (p.settleDay completion) residual l).1 := by
  induction l generalizing residual with
  | nil => rfl
  | cons first rest ih =>
      obtain ⟨d, day⟩ := first
      have tail := ih (fun e he => sound e (List.mem_cons_of_mem _ he))
        (p.settleDay completion residual d day).1
      have whole : day.compromised = false := sound (d, day) List.mem_cons_self
      simp only [scanList, List.map_cons]
      rw [← tail]
      rcases p.settleDay_cases completion residual d day with
        ⟨prior, h⟩ | ⟨prior, -, h⟩ | ⟨prior, -, after, -, h⟩
      · rw [h, List.filter_cons_of_neg (by simp [counts, prior])]
      · rw [h, List.filter_cons_of_neg (by simp [counts])]
      · rw [h, List.filter_cons_of_pos (by simp [counts, prior, whole]), List.getLast?_cons]
        cases (List.filter counts _).getLast? with
        | none => rfl
        | some last => rfl

end Period

end Entitlement
