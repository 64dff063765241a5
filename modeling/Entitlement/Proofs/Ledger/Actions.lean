import Entitlement.Ledger.Document

/-!
Actions on a ledger: how they follow one another, and what they write when they answer. An entry is written
only if there is an identifier for it; what is proved of the writing alone then holds of every action that
answers.
-/

namespace Entitlement

variable {ε α β : Type}

namespace ActionResult

/-- The answer and the ledger after it are as wanted and the error is one of those allowed, whichever of them
there is. -/
def Meets (fits : α → Ledger → Prop) (allowed : ε → Prop) : ActionResult ε α → Prop
  | .ok answer after => fits answer after
  | .error failure _ => allowed failure
  | .exhausted => True

variable {fits : α → Ledger → Prop} {allowed : ε → Prop} {result : ActionResult ε α} {after : Ledger}

theorem Meets.ok (h : result.Meets fits allowed) {answer : α} (ran : result = .ok answer after) :
    fits answer after := by
  rw [ran] at h
  exact h

theorem Meets.error (h : result.Meets fits allowed) {failure : ε} (ran : result = .error failure after) :
    allowed failure := by
  rw [ran] at h
  exact h

theorem Meets.bind {first : LedgerAction ε α} {next : α → LedgerAction ε β} {ledger : Ledger}
    {fits' : β → Ledger → Prop} (h : (first ledger).Meets fits allowed)
    (onward : ∀ answer after, fits answer after → (next answer after).Meets fits' allowed) :
    ((first >>= next) ledger).Meets fits' allowed := by
  simp only [Bind.bind]
  cases ran : first ledger with
  | ok answer after => exact onward answer after (h.ok ran)
  | error failure after => exact h.error ran
  | exhausted => trivial

def isExhausted : ActionResult ε α → Bool
  | .exhausted => true
  | _ => false

theorem isExhausted_iff : result.isExhausted = true ↔ result = .exhausted := by
  cases result with
  | ok answer after => simp [isExhausted]
  | error failure after => simp [isExhausted]
  | exhausted => simp [isExhausted]

end ActionResult

namespace LedgerAction

variable {first : LedgerAction ε α} {next : α → LedgerAction ε β} {ledger after : Ledger}

theorem bind_of_ok {answer : α} (h : first ledger = .ok answer after) :
    (first >>= next) ledger = next answer after := by
  simp only [Bind.bind, h]

theorem bind_of_error {error : ε} (h : first ledger = .error error after) :
    (first >>= next) ledger = .error error after := by
  simp only [Bind.bind, h]

theorem bind_of_exhausted (h : first ledger = .exhausted) : (first >>= next) ledger = .exhausted := by
  simp only [Bind.bind, h]

/-- A sequence of actions that answers has had an answer to both its parts. -/
theorem bind_ok {answer : β} (h : (first >>= next) ledger = .ok answer after) :
    ∃ a between, first ledger = .ok a between ∧ next a between = .ok answer after := by
  cases ran : first ledger with
  | ok a between => exact ⟨a, between, rfl, (bind_of_ok ran).symm.trans h⟩
  | error error between => cases (bind_of_error ran).symm.trans h
  | exhausted => cases (bind_of_exhausted ran).symm.trans h

end LedgerAction

namespace Ledger

variable {ledger after : Ledger}

theorem allocating_ok_iff {write : Ledger → α × Ledger} {answer : α} :
    (allocating write : LedgerAction ε α) ledger = .ok answer after ↔
      ledger.freshId < greatestId ∧ answer = (write ledger).1 ∧ after = (write ledger).2 := by
  unfold allocating
  split
  · next room => simp [room, eq_comm]
  · next full => simp [full]

theorem allocating_meets {write : Ledger → α × Ledger} {fits : α → Ledger → Prop} {allowed : ε → Prop}
    (h : fits (write ledger).1 (write ledger).2) :
    ((allocating write : LedgerAction ε α) ledger).Meets fits allowed := by
  unfold allocating
  split
  · exact h
  · trivial

/-- Adding a record that may refer to its day writes it under the next identifier. -/
theorem addAbsence_of_checkDay {draft : AbsenceDraft} (checked : ledger.checkDay draft = .ok ()) :
    addAbsence draft ledger = allocating (·.placeAbsence draft) ledger := by
  simp only [addAbsence, checked]

theorem addAbsence_ok_iff {draft : AbsenceDraft} {record : Absence} :
    addAbsence draft ledger = .ok record after ↔ ledger.checkDay draft = .ok () ∧
      ledger.freshId < greatestId ∧ record = (ledger.placeAbsence draft).1 ∧
        after = (ledger.placeAbsence draft).2 := by
  unfold addAbsence
  split
  · next refused => simp [refused]
  · next checked => simp [checked, allocating_ok_iff]

theorem annotate_of_holds {absence : AbsenceId} (held : ledger.holds absence = true) (problem : Problem) :
    annotate absence problem ledger = allocating (·.putTrouble absence problem) ledger :=
  if_pos held

theorem annotate_ok_iff {absence : AbsenceId} {problem : Problem} {trouble : Trouble} :
    annotate absence problem ledger = .ok trouble after ↔ ledger.holds absence = true ∧
      ledger.freshId < greatestId ∧ trouble = (ledger.putTrouble absence problem).1 ∧
        after = (ledger.putTrouble absence problem).2 := by
  unfold annotate
  split
  · next held => simp [held, allocating_ok_iff]
  · next gone => simp [gone]

/-- The day of a person on a date is the one there is, or a new one. -/
theorem ensureDay_ok_iff {person : PersonId} {date : Date} {day : DayId} :
    ensureDay person date ledger = .ok day after ↔
      (ledger.day? person date = some day ∧ after = ledger) ∨
        (ledger.day? person date = none ∧ ledger.freshId < greatestId ∧
          day = (ledger.putDay person date).1 ∧ after = (ledger.putDay person date).2) := by
  unfold ensureDay
  split
  · next found => simp [found, eq_comm]
  · next absent => simp [absent, allocating_ok_iff]

theorem load?_eq_some {document : LedgerDocument} :
    load? document = some ledger ↔ (ofDocument document).nextId ≤ greatestId ∧ ledger = ofDocument document := by
  unfold load?
  split
  · next room => simp [room, eq_comm]
  · next full => simp [full]

/-- What a transaction fails with is the failure of its action, and the ledger is as it was. -/
theorem atomically_error {action : LedgerAction ε α} {error : ε}
    (h : atomically action ledger = .error error after) :
    after = ledger ∧ ∃ between, action ledger = .error error between := by
  unfold atomically at h
  split at h
  · cases h
  · next failed between ran =>
    cases h
    exact ⟨rfl, between, ran⟩
  · cases h

end Ledger

end Entitlement
