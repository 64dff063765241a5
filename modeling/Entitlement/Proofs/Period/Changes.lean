import Entitlement.Proofs.Period.Settling

/-!
Periods as their own operations build them. Whatever is charged, completed, replaced, compromised, seeded or
settled, in whatever order, the marks of the days keep agreeing with the initialization and the errors of
the period.
-/

namespace Entitlement

open OrderedMap

namespace Period

/-- The changes that records and errors make to a period, and settling. -/
inductive Change where
  | charge (c : Charge)
  | complete (record : Absence) (amount : Amount)
  | replace (record : Absence)
  | compromise (error : CriticalError)
  | seed (limit : Amount)
  | settle

def changedBy (p : Period) : Change → Period
  | .charge c => p.charge c
  | .complete record amount => p.addCompletion record amount
  | .replace record => p.addReplacing record
  | .compromise error => p.compromise error
  | .seed limit => p.seed limit
  | .settle => p.settle

def run (p : Period) (changes : List Change) : Period :=
  changes.foldl changedBy p

/-- A day agrees with the initialization and the errors of a period: its mark is right, one before the
initialization requires nothing, and one that is marked compromised is compromised. -/
structure Agrees (p : Period) (d : Date) (day : PeriodDay) : Prop where
  prior : day.beforeInitialization = p.isPrior d
  idle : p.isPrior d = true → day.required = none
  compromised : day.compromised = true → p.isCompromisedOn d = true

structure Sound (p : Period) : Prop where
  agrees {d : Date} {day : PeriodDay} : p.day? d = some day → p.Agrees d day

theorem Sound.dayAt {p : Period} (sound : p.Sound) (d : Date) : p.Agrees d (p.dayAt d) := by
  cases found : p.day? d with
  | none =>
    rw [dayAt_of_none found]
    exact ⟨rfl, fun _ => rfl, fun h => absurd h Bool.false_ne_true⟩
  | some day =>
    rw [dayAt_of_day? found]
    exact sound.agrees found

theorem Sound.onDay {p : Period} (sound : p.Sound) (date : Date) {change : PeriodDay → PeriodDay}
    (keeps : ∀ day, (change day).beforeInitialization = day.beforeInitialization ∧
      (change day).required = day.required ∧ (change day).compromised = day.compromised) :
    (p.onDay date change).Sound where
  agrees {d day} hd := by
    rw [day?_onDay] at hd
    split at hd
    · next same =>
      cases hd
      obtain ⟨prior, required, compromised⟩ := keeps (p.dayAt date)
      have agrees := sound.dayAt date
      rw [same]
      exact ⟨prior.trans agrees.prior, fun early => required.trans (agrees.idle early),
        fun marked => agrees.compromised (compromised ▸ marked)⟩
    · have agrees := sound.agrees hd
      exact ⟨agrees.prior, agrees.idle, agrees.compromised⟩

theorem Sound.of_same {p q : Period} (sound : p.Sound) (days : q.days = p.days)
    (initialization : q.initialization = p.initialization)
    (compromised : ∀ d, p.isCompromisedOn d = true → q.isCompromisedOn d = true) : q.Sound where
  agrees {d day} hd := by
    have prior : q.isPrior d = p.isPrior d := by rw [isPrior, isPrior, initialization]
    rw [day?, days] at hd
    have agrees := sound.agrees hd
    exact ⟨prior ▸ agrees.prior, fun early => agrees.idle (prior ▸ early),
      fun marked => compromised d (agrees.compromised marked)⟩

theorem Sound.settle {p : Period} (sound : p.Sound) : p.settle.Sound where
  agrees {d day} hd := by
    cases asks : p.category.completion with
    | none =>
      rw [settle_of_none asks] at hd ⊢
      exact sound.agrees hd
    | some completion =>
      obtain ⟨residual, before, held, image⟩ := settle_day? asks hd
      have agrees := sound.agrees held
      refine ⟨?_, ?_, ?_⟩
      · rw [isPrior_settle, image, (p.settleDay_same completion residual d before).beforeInitialization,
          agrees.prior]
      · intro early
        rw [isPrior_settle] at early
        rcases p.settleDay_cases completion residual d before with ⟨-, h⟩ | ⟨late, -⟩ | ⟨late, -⟩
        · rw [image, h]
          exact agrees.idle early
        · rw [agrees.prior, early] at late
          cases late
        · rw [agrees.prior, early] at late
          cases late
      · intro marked
        rw [isCompromisedOn_settle]
        rw [image] at marked
        rcases p.settleDay_cases completion residual d before with ⟨-, h⟩ | ⟨-, compromised, -⟩ | ⟨-, -, _, -, h⟩
        · rw [h] at marked
          exact agrees.compromised marked
        · exact compromised
        · rw [h] at marked
          exact agrees.compromised marked

/-- Each change leaves the days in agreement. -/
theorem Sound.changedBy {p : Period} (sound : p.Sound) (change : Change) : (p.changedBy change).Sound := by
  cases change with
  | charge c =>
    have counted : (p.counted c).Sound := sound.of_same (days_counted p c)
      (initialization_of_terms (terms_counted p c)) fun d h => (isCompromisedOn_charge p c d).trans h
    show (p.charge c).Sound
    rw [charge_eq]
    exact counted.onDay c.absence.date fun _ => ⟨rfl, rfl, rfl⟩
  | complete record amount =>
    show (p.addCompletion record amount).Sound
    exact sound.onDay record.date fun _ => ⟨rfl, rfl, rfl⟩
  | replace record =>
    show (p.addReplacing record).Sound
    exact sound.onDay record.date fun _ => ⟨rfl, rfl, rfl⟩
  | compromise error =>
    exact sound.of_same rfl rfl fun _ h => isCompromisedOn_compromise.2 (.inl h)
  | seed limit =>
    show (p.seed limit).Sound
    unfold seed
    split
    · exact sound
    · exact sound.of_same rfl rfl fun _ h => h
  | settle => exact sound.settle

theorem sound_start (category : Category) (range : DateRange) (limit : Amount)
    (initialization : Option Initialization) : (start category range limit initialization).Sound :=
  ⟨fun hd => absurd hd (by simp [day?, start])⟩

/-- So do all changes together. -/
theorem Sound.run {p : Period} (sound : p.Sound) (changes : List Change) : (p.run changes).Sound := by
  induction changes generalizing p with
  | nil => exact sound
  | cons change rest ih => exact ih (sound.changedBy change)

def Arises (p : Period) : Prop :=
  ∃ category range limit initialization changes,
    p = (start category range limit initialization).run changes

theorem Arises.sound {p : Period} (h : p.Arises) : p.Sound := by
  obtain ⟨category, range, limit, initialization, changes, rfl⟩ := h
  exact (sound_start category range limit initialization).run changes

/-- A date is judged if it is neither before the initialization nor compromised. -/
def judges (p : Period) (d : Date) : Bool :=
  !p.isPrior d && !p.isCompromisedOn d

def judged (p : Period) : List (Date × PeriodDay) :=
  p.days.toList.filter fun e => p.judges e.1

theorem judges_settle (p : Period) : p.settle.judges = p.judges := by
  funext d
  rw [judges, judges, isPrior_settle, isCompromisedOn_settle]

theorem Sound.of_mem_judged {p : Period} (sound : p.Sound) :
    ∀ e ∈ p.judged, p.Agrees e.1 e.2 ∧ p.judges e.1 = true := by
  intro e he
  obtain ⟨mem, judged⟩ := List.mem_filter.1 he
  exact ⟨sound.agrees (day?_eq_some.2 mem), judged⟩

end Period

end Entitlement
