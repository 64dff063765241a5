import Entitlement.Proofs.Ledger.Days
import Entitlement.Proofs.Scan.Outcome

/-!
The part of a ledger that belongs to some persons: their records, the annotations on these, and their
attendance days. What is done for one of them does the same to the part alone as to the whole ledger, and
leaves alone all that belongs to others. The identifiers are shared, so the ledger must keep them apart.
-/

namespace Entitlement

namespace OrderedMap

variable {κ ν : Type} [Ordered κ]

theorem values_filter (m : OrderedMap κ ν) (p : ν → Bool) :
    (m.filter fun _ v => p v).values = m.values.filter p := by
  rw [values, filter, values, List.filter_map]
  rfl

theorem filter_filter (m : OrderedMap κ ν) (p q : κ → ν → Bool) :
    (m.filter p).filter q = m.filter fun k v => q k v && p k v := by
  simp only [filter, List.filter_filter]

/-- A map whose values tell their keys is determined by its values. -/
theorem eq_of_values {m m' : OrderedMap κ ν} {key : ν → κ}
    (keyed : ∀ k v, (k, v) ∈ m.toList → key v = k) (keyed' : ∀ k v, (k, v) ∈ m'.toList → key v = k)
    (same : m.values = m'.values) : m = m' := by
  have list {m : OrderedMap κ ν} (keyed : ∀ k v, (k, v) ∈ m.toList → key v = k) :
      m.toList = m.values.map fun v => (key v, v) := by
    rw [values, List.map_map]
    refine (List.map_id _).symm.trans (List.map_congr_left fun e he => ?_)
    exact Prod.ext (keyed e.1 e.2 he).symm rfl
  have lists : m.toList = m'.toList := by rw [list keyed, list keyed', same]
  cases m
  cases m'
  cases lists
  rfl

variable [DecidableEq κ]

theorem get?_filter (m : OrderedMap κ ν) (p : κ → ν → Bool) (k : κ) :
    (m.filter p).get? k = (m.get? k).filter (p k) := by
  apply Option.ext
  intro v
  rw [get?_filter_eq_some, Option.filter_eq_some_iff]

theorem filter_insert {m : OrderedMap κ ν} {p : κ → ν → Bool} {k : κ} {v : ν} (passes : p k v = true) :
    (m.insert k v).filter p = (m.filter p).insert k v := by
  apply ext
  intro k'
  simp only [get?_filter, get?_insert]
  split
  · next same =>
    subst same
    exact if_pos passes
  · rfl

theorem filter_erase (m : OrderedMap κ ν) (p : κ → ν → Bool) (k : κ) :
    (m.erase k).filter p = (m.filter p).erase k := by
  apply ext
  intro k'
  simp only [get?_filter, get?_erase]
  split
  · rfl
  · rfl

theorem filter_congr {m : OrderedMap κ ν} {p q : κ → ν → Bool}
    (same : ∀ k v, m.get? k = some v → p k v = q k v) : m.filter p = m.filter q := by
  apply ext
  intro k
  rw [get?_filter, get?_filter]
  cases found : m.get? k with
  | none => rfl
  | some v => simp only [Option.filter_some, same k v found]

end OrderedMap

namespace Ledger

variable {ledger : Ledger} {who : PersonId → Bool}

def isOn (ledger : Ledger) (who : PersonId → Bool) (trouble : Trouble) : Bool :=
  (ledger.record? trouble.absence).any fun a => who a.person

def part (ledger : Ledger) (who : PersonId → Bool) : Ledger :=
  { ledger with
    absences := ledger.absences.filter fun _ a => who a.person
    troubles := ledger.troubles.filter fun _ t => ledger.isOn who t
    days := ledger.days.filter fun key _ => who key.1 }

structure Holdings where
  records : List Absence
  annotations : List Trouble
  days : List ((PersonId × Date) × DayId)
deriving DecidableEq

/-- The records of some persons, the annotations on them, and the persons' attendance days. -/
def holdings (ledger : Ledger) (who : PersonId → Bool) : Holdings where
  records := ledger.records.filter fun a => who a.person
  annotations := ledger.annotations.filter (ledger.isOn who)
  days := ledger.days.toList.filter fun e => who e.1.1

def Owns (ledger : Ledger) (who : PersonId → Bool) (id : AbsenceId) : Prop :=
  ∀ a, ledger.record? id = some a → who a.person = true

/-- Records, annotations and days are told apart by their identifiers, and every annotation is on a
record. -/
structure Proper (ledger : Ledger) : Prop where
  sound : ledger.Sound
  tagged : ledger.Tagged
  rostered : ledger.Rostered
  attached : ledger.Attached

/-- What belongs to no one of the persons stays as it is. -/
structure Spares (who : PersonId → Bool) (before after : Ledger) : Prop where
  records {id : AbsenceId} {a : Absence} : who a.person = false →
    (after.record? id = some a ↔ before.record? id = some a)
  troubles {id : TroubleId} {t : Trouble} {a : Absence} : before.record? t.absence = some a →
    who a.person = false → (after.troubles.get? id = some t ↔ before.troubles.get? id = some t)
  days {person : PersonId} (date : Date) : who person = false →
    after.day? person date = before.day? person date

theorem Spares.nothing (who : PersonId → Bool) (ledger : Ledger) : Spares who ledger ledger where
  records _ := Iff.rfl
  troubles _ _ := Iff.rfl
  days _ _ := rfl

theorem Spares.trans {first second third : Ledger} (before : Spares who first second)
    (after : Spares who second third) : Spares who first third where
  records other := (after.records other).trans (before.records other)
  troubles found other :=
    (after.troubles ((before.records other).2 found) other).trans (before.troubles found other)
  days date other := (after.days date other).trans (before.days date other)

/-- What was the persons' at first is theirs as long as the others are spared. -/
theorem Spares.owns {before after : Ledger} (spares : Spares who before after) {id : AbsenceId}
    (owns : before.Owns who id) : after.Owns who id := by
  intro a found
  cases mine : who a.person with
  | true => rfl
  | false => exact mine.symm.trans (owns a ((spares.records mine).1 found))

theorem records_part (ledger : Ledger) (who : PersonId → Bool) :
    (ledger.part who).records = ledger.records.filter fun a => who a.person :=
  OrderedMap.values_filter _ _

theorem annotations_part (ledger : Ledger) (who : PersonId → Bool) :
    (ledger.part who).annotations = ledger.annotations.filter (ledger.isOn who) :=
  OrderedMap.values_filter _ _

theorem holdings_part (ledger : Ledger) (who : PersonId → Bool) : ledger.holdings who =
    ⟨(ledger.part who).records, (ledger.part who).annotations, (ledger.part who).days.toList⟩ := by
  rw [records_part, annotations_part]
  rfl

theorem isOn_congr {before after : Ledger} {t : Trouble}
    (same : after.record? t.absence = before.record? t.absence) :
    after.isOn who t = before.isOn who t := by
  rw [isOn, same, isOn]

theorem record?_part (id : AbsenceId) :
    (ledger.part who).record? id = (ledger.record? id).filter fun a => who a.person :=
  OrderedMap.get?_filter _ _ _

theorem record?_part_of_owns {id : AbsenceId} (owns : ledger.Owns who id) :
    (ledger.part who).record? id = ledger.record? id := by
  rw [record?_part]
  cases found : ledger.record? id with
  | none => rfl
  | some a => exact if_pos (owns a found)

theorem absencesIn_part {person : PersonId} (mine : who person = true) (first last : Date) :
    (ledger.part who).absencesIn person first last = ledger.absencesIn person first last := by
  show Absence.inOrder ((ledger.part who).records.filter _) = _
  rw [records_part, List.filter_filter]
  refine congrArg Absence.inOrder (List.filter_congr fun a _ => ?_)
  rw [Bool.eq_iff_iff]
  simp only [Bool.and_eq_true, decide_eq_true_eq]
  exact and_iff_left_of_imp fun inside => inside.1.1 ▸ mine

theorem troublesOf_part {id : AbsenceId} {a : Absence} (found : ledger.record? id = some a)
    (mine : who a.person = true) : (ledger.part who).troublesOf id = ledger.troublesOf id := by
  rw [troublesOf_eq, annotations_part, List.filter_filter, troublesOf_eq]
  refine List.filter_congr fun t _ => ?_
  rw [Bool.eq_iff_iff, Bool.and_eq_true, decide_eq_true_eq]
  refine and_iff_left_of_imp fun on => ?_
  rw [isOn, on, found]
  exact mine

theorem day?_part {person : PersonId} (mine : who person = true) (date : Date) :
    (ledger.part who).day? person date = ledger.day? person date := by
  unfold day? part
  rw [OrderedMap.get?_filter]
  cases ledger.days.get? (person, date) with
  | none => rfl
  | some day => exact if_pos mine

theorem putDay_part {person : PersonId} (mine : who person = true) (date : Date) :
    (ledger.part who).putDay person date =
      ((ledger.putDay person date).1, (ledger.putDay person date).2.part who) := by
  refine Prod.ext rfl ?_
  have days := OrderedMap.filter_insert (m := ledger.days) (p := fun key _ => who key.1)
    (k := (person, date)) (v := ledger.freshId) mine
  exact congrArg (fun ds => Ledger.mk _ _ ds _ _) days.symm

theorem Proper.putDay (proper : ledger.Proper) {person : PersonId} {date : Date}
    (absent : ledger.day? person date = none) : (ledger.putDay person date).2.Proper where
  sound := proper.sound.putDay person date
  tagged := proper.tagged.fewer (Nat.le_succ_of_le (Nat.le_max_left _ _)) fun _ _ found => found
  rostered := proper.rostered.putDay absent
  attached := proper.attached

theorem spares_putDay {person : PersonId} (mine : who person = true) (date : Date) :
    Spares who ledger (ledger.putDay person date).2 where
  records _ := Iff.rfl
  troubles _ _ := Iff.rfl
  days {person'} date' other := by
    have apart : (person', date') ≠ (person, date) := by
      rintro same
      rw [(Prod.mk.inj same).1, mine] at other
      cases other
    rw [day?, putDay, OrderedMap.get?_insert, if_neg apart]
    rfl

theorem record?_placeAbsence (draft : AbsenceDraft) (id : AbsenceId) :
    (ledger.placeAbsence draft).2.record? id =
      if id = ledger.freshId then some (ledger.placeAbsence draft).1 else ledger.record? id :=
  OrderedMap.get?_insert

/-- The next identifier is no record's. -/
theorem Sound.record?_freshId (sound : ledger.Sound) : ledger.record? ledger.freshId = none := by
  cases found : ledger.record? ledger.freshId with
  | none => rfl
  | some a => exact absurd (freshId_above sound found) (Nat.lt_irrefl _)

/-- The record of an annotation is there, and its identifier is not the next. -/
theorem Proper.absence_ne (proper : ledger.Proper) {id : TroubleId} {t : Trouble}
    (found : ledger.troubles.get? id = some t) : t.absence ≠ ledger.freshId := by
  intro same
  have held := proper.attached id t found
  rw [same, holds, proper.sound.record?_freshId] at held
  cases held

theorem placeAbsence_part (proper : ledger.Proper) {draft : AbsenceDraft}
    (mine : who draft.person = true) : (ledger.part who).placeAbsence draft =
      ((ledger.placeAbsence draft).1, (ledger.placeAbsence draft).2.part who) := by
  have absences : (ledger.placeAbsence draft).2.absences.filter (fun _ a => who a.person) =
      (ledger.absences.filter fun _ a => who a.person).insert ledger.freshId (ledger.placeAbsence draft).1 :=
    OrderedMap.filter_insert mine
  have troubles : ledger.troubles.filter (fun _ t => (ledger.placeAbsence draft).2.isOn who t) =
      ledger.troubles.filter fun _ t => ledger.isOn who t := by
    refine OrderedMap.filter_congr fun id t found => ?_
    apply isOn_congr
    rw [record?_placeAbsence, if_neg (proper.absence_ne found)]
  refine Prod.ext rfl ?_
  simp only [part, absences]
  exact congrArg (fun ts => Ledger.mk _ ts _ _ _) troubles.symm

theorem Proper.placeAbsence (proper : ledger.Proper) (draft : AbsenceDraft) :
    (ledger.placeAbsence draft).2.Proper where
  sound := proper.sound.placeAbsence draft
  tagged := proper.tagged.fewer (Nat.le_succ_of_le (Nat.le_max_left _ _)) fun _ _ found => found
  rostered := proper.rostered.of_days rfl (Nat.le_succ_of_le (Nat.le_max_left _ _))
  attached id t found := by
    have held := proper.attached id t found
    rw [holds, record?_placeAbsence]
    split
    · rfl
    · exact held

theorem Proper.spares_placeAbsence (proper : ledger.Proper) {draft : AbsenceDraft}
    (mine : who draft.person = true) : Spares who ledger (ledger.placeAbsence draft).2 where
  records {id a} other := by
    rw [record?_placeAbsence]
    split
    · next same =>
      rw [same, proper.sound.record?_freshId]
      refine iff_of_false (fun found => ?_) nofun
      cases found
      exact Bool.noConfusion (mine.symm.trans other)
    · exact Iff.rfl
  troubles _ _ := Iff.rfl
  days _ _ := rfl

theorem removeAbsence_part {id : AbsenceId} (owns : ledger.Owns who id) :
    (ledger.part who).removeAbsence id =
      ((ledger.removeAbsence id).1, (ledger.removeAbsence id).2.part who) := by
  have held : (ledger.part who).holds id = ledger.holds id := by
    rw [holds, record?_part_of_owns owns, holds]
  unfold removeAbsence
  rw [held]
  split
  · refine Prod.ext rfl ?_
    simp only [part, OrderedMap.filter_erase, OrderedMap.filter_filter, Ledger.mk.injEq, true_and]
    refine ⟨OrderedMap.filter_congr fun k t _ => ?_, trivial⟩
    rw [Bool.and_comm]
    by_cases on : t.absence = id
    · rw [decide_eq_false (not_not.2 on), Bool.and_false, Bool.and_false]
    · refine congrArg (· && _) (isOn_congr ?_).symm
      exact OrderedMap.get?_erase.trans (if_neg on)
  · rfl

theorem Proper.removeAbsence (proper : ledger.Proper) (id : AbsenceId) :
    (ledger.removeAbsence id).2.Proper where
  sound := proper.sound.removeAbsence id
  tagged := proper.tagged.fewer (Nat.le_of_eq (removeAbsence_nextId ledger id).symm)
    fun _ _ found => (removeAbsence_troubles.1 found).1
  rostered := proper.rostered.of_days (removeAbsence_days ledger id)
    (Nat.le_of_eq (removeAbsence_nextId ledger id).symm)
  attached k t found := by
    obtain ⟨old, stays⟩ := removeAbsence_troubles.1 found
    have held := proper.attached k t old
    by_cases on : t.absence = id
    · refine absurd on (stays ?_)
      unfold Ledger.removeAbsence
      rw [if_pos (on ▸ held)]
    · rw [holds, removeAbsence_record?, if_neg on]
      exact held

theorem spares_removeAbsence {id : AbsenceId} (owns : ledger.Owns who id) :
    Spares who ledger (ledger.removeAbsence id).2 where
  records {id' a} other := by
    rw [removeAbsence_record?]
    split
    · next same =>
      refine iff_of_false nofun fun found => ?_
      exact Bool.noConfusion ((owns a (same ▸ found)).symm.trans other)
    · exact Iff.rfl
  troubles {k t a} found other := by
    refine removeAbsence_troubles.trans (and_iff_left_of_imp fun _ _ on => ?_)
    exact Bool.noConfusion ((owns a (on ▸ found)).symm.trans other)
  days date _ := by rw [day?, removeAbsence_days, day?]

theorem putTrouble_part {absence : AbsenceId} {a : Absence} (found : ledger.record? absence = some a)
    (mine : who a.person = true) (problem : Problem) : (ledger.part who).putTrouble absence problem =
      ((ledger.putTrouble absence problem).1, (ledger.putTrouble absence problem).2.part who) := by
  have on : ledger.isOn who ⟨ledger.freshId, absence, problem⟩ = true := by
    rw [isOn, found]
    exact mine
  refine Prod.ext rfl ?_
  have troubles := OrderedMap.filter_insert (m := ledger.troubles) (p := fun _ t => ledger.isOn who t)
    (k := ledger.freshId) on
  exact congrArg (fun ts => Ledger.mk _ ts _ _ _) troubles.symm

theorem Proper.putTrouble (proper : ledger.Proper) {absence : AbsenceId}
    (held : ledger.holds absence = true) (problem : Problem) :
    (ledger.putTrouble absence problem).2.Proper where
  sound := by
    have later : ledger.Later (ledger.putTrouble absence problem).2 :=
      proper.sound.later_of_absences rfl (Nat.le_succ_of_le (Nat.le_max_left _ _))
    exact later.sound
  tagged := proper.tagged.putTrouble absence problem
  rostered := proper.rostered.of_days rfl (Nat.le_succ_of_le (Nat.le_max_left _ _))
  attached id t found := by
    rw [Ledger.putTrouble, OrderedMap.get?_insert] at found
    split at found
    · cases found
      exact held
    · exact proper.attached id t found

theorem Proper.spares_putTrouble (proper : ledger.Proper) {absence : AbsenceId} {a : Absence}
    (found : ledger.record? absence = some a) (mine : who a.person = true) (problem : Problem) :
    Spares who ledger (ledger.putTrouble absence problem).2 where
  records _ := Iff.rfl
  troubles {id t b} on other := by
    rw [Ledger.putTrouble, OrderedMap.get?_insert]
    split
    · next same =>
      refine iff_of_false (fun new => ?_) fun old => ?_
      · cases new
        cases found.symm.trans on
        exact Bool.noConfusion (mine.symm.trans other)
      · have below := proper.tagged.below old
        have fresh : ledger.nextId ≤ id := same ▸ Nat.le_max_left _ _
        exact Nat.lt_irrefl _ (Nat.lt_of_lt_of_le below fresh)
    · exact Iff.rfl
  days _ _ := rfl

theorem removeTrouble_part {id : TroubleId}
    (mine : ∀ t, ledger.troubles.get? id = some t → ledger.isOn who t = true) :
    (ledger.part who).removeTrouble id =
      ((ledger.removeTrouble id).1, (ledger.removeTrouble id).2.part who) := by
  have present : (ledger.part who).troubles.contains id = ledger.troubles.contains id := by
    unfold OrderedMap.contains part
    rw [OrderedMap.get?_filter]
    cases found : ledger.troubles.get? id with
    | none => rfl
    | some t => rw [Option.filter_some, mine t found, if_pos rfl]
  unfold removeTrouble
  rw [present]
  split
  · refine Prod.ext rfl ?_
    exact congrArg (fun ts => Ledger.mk _ ts _ _ _) (OrderedMap.filter_erase _ _ id).symm
  · rfl

theorem Proper.removeTrouble (proper : ledger.Proper) (id : TroubleId) :
    (ledger.removeTrouble id).2.Proper where
  sound := by
    obtain ⟨absences, nextId⟩ := removeTrouble_keeps ledger id
    exact (proper.sound.later_of_absences absences (Nat.le_of_eq nextId.symm)).sound
  tagged := proper.tagged.removeTrouble id
  rostered := by
    refine proper.rostered.of_days ?_ (Nat.le_of_eq (removeTrouble_keeps ledger id).2.symm)
    unfold Ledger.removeTrouble
    split
    · rfl
    · rfl
  attached k t found := by
    rw [removeTrouble_get?] at found
    split at found
    · cases found
    · rw [holds_congr (removeTrouble_keeps ledger id).1]
      exact proper.attached k t found

theorem spares_removeTrouble {id : TroubleId}
    (mine : ∀ t, ledger.troubles.get? id = some t → ledger.isOn who t = true) :
    Spares who ledger (ledger.removeTrouble id).2 where
  records _ := by rw [record?, (removeTrouble_keeps ledger id).1, record?]
  troubles {k t a} on other := by
    rw [removeTrouble_get?]
    split
    · next same =>
      refine iff_of_false (fun absurd => ?_) fun found => ?_
      · cases absurd
      · have own := mine t (same ▸ found)
        rw [isOn, on] at own
        exact Bool.noConfusion (own.symm.trans other)
    · exact Iff.rfl
  days date _ := by
    unfold removeTrouble
    split
    · rfl
    · rfl

/-- The ledger of a document is proper if its days have different identifiers and every annotation is on a
record. -/
theorem proper_ofDocument {document : LedgerDocument} (once : (ofDocument document).days.values.Nodup)
    (attached : (ofDocument document).Attached) : (ofDocument document).Proper :=
  ⟨sound_ofDocument document, tagged_ofDocument document, rostered_ofDocument once, attached⟩

/-- What is spared is held as before. -/
theorem Spares.holdings {who : PersonId → Bool} {before after : Ledger} (spares : Spares who before after) :
    after.holdings (fun p => !who p) = before.holdings fun p => !who p := by
  have other {p : PersonId} : (!who p) = true ↔ who p = false := by rw [Bool.not_eq_true']
  have on {t : Trouble} {a : Absence} (h : who a.person = false) :
      after.record? t.absence = some a ↔ before.record? t.absence = some a := spares.records h
  have absences : (after.part fun p => !who p).absences = (before.part fun p => !who p).absences := by
    refine OrderedMap.ext fun id => Option.ext fun a => ?_
    simp only [part, OrderedMap.get?_filter_eq_some, other]
    exact and_congr_left spares.records
  have troubles : (after.part fun p => !who p).troubles = (before.part fun p => !who p).troubles := by
    refine OrderedMap.ext fun id => Option.ext fun t => ?_
    simp only [part, OrderedMap.get?_filter_eq_some, isOn, Option.any_eq_true, other]
    constructor
    · rintro ⟨found, a, there, h⟩
      exact ⟨(spares.troubles ((on h).1 there) h).1 found, a, (on h).1 there, h⟩
    · rintro ⟨found, a, there, h⟩
      exact ⟨(spares.troubles there h).2 found, a, (on h).2 there, h⟩
  have days : (after.part fun p => !who p).days = (before.part fun p => !who p).days := by
    refine OrderedMap.ext fun key => Option.ext fun day => ?_
    simp only [part, OrderedMap.get?_filter_eq_some, other]
    exact and_congr_left fun h => Eq.congr_left (spares.days key.2 h)
  rw [holdings_part, holdings_part, Ledger.records, absences, annotations, troubles, days]
  rfl

/-- Ledgers that hold the same of some persons have the same part. -/
theorem part_of_holdings {l l' : Ledger} {who : PersonId → Bool} (proper : l.Proper) (proper' : l'.Proper)
    (agree : l.holdings who = l'.holdings who) :
    l'.part who = { l.part who with nextId := l'.nextId, mutations := l'.mutations } := by
  have keyed {l : Ledger} (proper : l.Proper) (id : AbsenceId) (a : Absence)
      (mem : (id, a) ∈ (l.part who).absences.toList) : a.id = id :=
    proper.sound.keyed (OrderedMap.get?_eq_some_iff.2 (List.mem_filter.1 mem).1)
  have tagged {l : Ledger} (proper : l.Proper) (id : TroubleId) (t : Trouble)
      (mem : (id, t) ∈ (l.part who).troubles.toList) : t.id = id :=
    proper.tagged.keyed (OrderedMap.get?_eq_some_iff.2 (List.mem_filter.1 mem).1)
  rw [holdings_part, holdings_part, Holdings.mk.injEq] at agree
  obtain ⟨records, annotations, days⟩ := agree
  have absences := OrderedMap.eq_of_values (keyed proper) (keyed proper') records
  have troubles := OrderedMap.eq_of_values (tagged proper) (tagged proper') annotations
  have roster : (l.part who).days = (l'.part who).days := by
    generalize (l.part who).days = m at days
    generalize (l'.part who).days = m' at days
    cases m
    cases m'
    cases days
    rfl
  simp only [absences, troubles, roster]
  rfl

end Ledger

end Entitlement
