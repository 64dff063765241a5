import Entitlement.Proofs.Ledger.Counting
import Entitlement.Proofs.Ledger.Part
import Entitlement.Proofs.Scan.Failures

/-!
Scripts: the operations that write to a ledger, one after the other, and transactions over such sequences,
nested to any depth and ended well or badly. An operation that fails does not end its script. One inversion
lemma says what an operation can have written; what every such write keeps is then kept by every script.
-/

namespace Entitlement

namespace Ledger

/-- The ledger that an action leaves behind, whether it answers or fails. If it needs an identifier and there
is none, nothing has been written. -/
def leftBy {ε α : Type} (action : LedgerAction ε α) (ledger : Ledger) : Ledger :=
  match action ledger with
  | .ok _ after => after
  | .error _ after => after
  | .exhausted => ledger

inductive Operation where
  | addAbsence (draft : AbsenceDraft)
  | removeAbsence (id : AbsenceId)
  | annotate (absence : AbsenceId) (problem : Problem)
  | removeTrouble (id : TroubleId)
  | ensureDay (person : PersonId) (date : Date)

def Operation.run : Operation → LedgerAction LedgerRefusal Unit
  | .addAbsence draft => discard (Ledger.addAbsence draft)
  | .removeAbsence id => fun ledger => .ok () (ledger.removeAbsence id).2
  | .annotate absence problem => discard (Ledger.annotate absence problem)
  | .removeTrouble id => fun ledger => .ok () (ledger.removeTrouble id).2
  | .ensureDay person date => discard (Ledger.ensureDay person date)

/-- Operations in sequence. A transaction runs a script of its own and then succeeds or fails. -/
inductive Script where
  | done
  | operate (operation : Operation) (rest : Script)
  | transact (body : Script) (succeeds : Bool) (rest : Script)

def ending (succeeds : Bool) (body : Ledger → Ledger) : LedgerAction Unit Unit := fun ledger =>
  if succeeds then .ok () (body ledger) else .error () (body ledger)

def Script.run : Script → Ledger → Ledger
  | .done => id
  | .operate operation rest => fun ledger => rest.run (leftBy operation.run ledger)
  | .transact body succeeds rest => fun ledger =>
    rest.run (leftBy (atomically (ending succeeds body.run)) ledger)

def SameTables (before after : Ledger) : Prop :=
  after.absences = before.absences ∧ after.troubles = before.troubles ∧ after.days = before.days

instance (before after : Ledger) : Decidable (SameTables before after) :=
  inferInstanceAs (Decidable (_ ∧ _ ∧ _))

/-- How many operations of a script change a table, those in failing transactions left out. -/
def Script.writes : Script → Ledger → Nat
  | .done => fun _ => 0
  | .operate operation rest => fun ledger =>
    (if SameTables ledger (leftBy operation.run ledger) then 0 else 1) +
      rest.writes (leftBy operation.run ledger)
  | .transact body succeeds rest => fun ledger =>
    (if succeeds then body.writes ledger else 0) +
      rest.writes (leftBy (atomically (ending succeeds body.run)) ledger)

def ids (ledger : Ledger) : List Nat :=
  ledger.records.map (·.id) ++ ledger.annotations.map (·.id) ++ ledger.days.values

inductive Wrote (ledger : Ledger) : Ledger → Prop
  | placed {draft : AbsenceDraft} :
      ledger.checkDay draft = .ok () → Wrote ledger (ledger.placeAbsence draft).2
  | removed {id : AbsenceId} : ledger.holds id = true → Wrote ledger (ledger.removeAbsence id).2
  | annotated {absence : AbsenceId} (problem : Problem) :
      ledger.holds absence = true → Wrote ledger (ledger.putTrouble absence problem).2
  | cleared {id : TroubleId} :
      ledger.troubles.contains id = true → Wrote ledger (ledger.removeTrouble id).2
  | opened {person : PersonId} {date : Date} :
      ledger.day? person date = none → Wrote ledger (ledger.putDay person date).2

section
variable {ε α : Type} {action : LedgerAction ε α} {ledger after : Ledger}

theorem discard_ok {answer : α} (h : action ledger = .ok answer after) : discard action ledger = .ok () after :=
  LedgerAction.bind_of_ok h

theorem discard_error {error : ε} (h : action ledger = .error error after) :
    discard action ledger = .error error after :=
  LedgerAction.bind_of_error h

theorem discard_exhausted (h : action ledger = .exhausted) : discard action ledger = .exhausted :=
  LedgerAction.bind_of_exhausted h

end

/-- How an operation on a ledger may end: if it fails, finds no identifier or has nothing to do, the ledger is as
it was. -/
inductive Ran (ledger : Ledger) : ActionResult LedgerRefusal Unit → Prop
  | failed (error : LedgerRefusal) : Ran ledger (.error error ledger)
  | exhausted : Ran ledger .exhausted
  | idle : Ran ledger (.ok () ledger)
  | wrote {after : Ledger} : ledger.Wrote after → Ran ledger (.ok () after)

/-- An action that comes down to one entry writes it, unless the identifiers are exhausted. -/
theorem ran_of_allocating {α : Type} {action : LedgerAction LedgerRefusal α} {ledger : Ledger}
    {write : Ledger → α × Ledger} (h : action ledger = allocating write ledger)
    (wrote : ledger.Wrote (write ledger).2) : ledger.Ran (discard action ledger) := by
  by_cases room : ledger.freshId < greatestId
  · rw [discard_ok (h.trans (if_pos room))]
    exact .wrote wrote
  · rw [discard_exhausted (h.trans (if_neg room))]
    exact .exhausted

theorem Operation.ran (operation : Operation) (ledger : Ledger) : ledger.Ran (operation.run ledger) := by
  cases operation with
  | addAbsence draft =>
    cases checked : ledger.checkDay draft with
    | ok _ => exact ran_of_allocating (addAbsence_of_checkDay checked) (.placed checked)
    | error error =>
      have refused : Ledger.addAbsence draft ledger = .error error ledger := by
        simp only [Ledger.addAbsence, checked]
      rw [Operation.run, discard_error refused]
      exact .failed error
  | removeAbsence id =>
    cases held : ledger.holds id with
    | true => exact .wrote (.removed held)
    | false =>
      simp only [Operation.run, Ledger.removeAbsence, held, Bool.false_eq_true, if_false]
      exact .idle
  | annotate absence problem =>
    cases held : ledger.holds absence with
    | true => exact ran_of_allocating (annotate_of_holds held problem) (.annotated problem held)
    | false =>
      have refused : Ledger.annotate absence problem ledger = .error (.notFound .absence absence) ledger := by
        simp only [Ledger.annotate, held, Bool.false_eq_true, if_false]
      rw [Operation.run, discard_error refused]
      exact .failed _
  | removeTrouble id =>
    cases present : ledger.troubles.contains id with
    | true => exact .wrote (.cleared present)
    | false =>
      simp only [Operation.run, Ledger.removeTrouble, present, Bool.false_eq_true, if_false]
      exact .idle
  | ensureDay person date =>
    cases found : ledger.day? person date with
    | none =>
      have opens : Ledger.ensureDay person date ledger = allocating (·.putDay person date) ledger := by
        simp only [Ledger.ensureDay, found]
      exact ran_of_allocating opens (.opened found)
    | some day =>
      have finds : Ledger.ensureDay person date ledger = .ok day ledger := by
        simp only [Ledger.ensureDay, found]
      rw [Operation.run, discard_ok finds]
      exact .idle

theorem removeTrouble_days (ledger : Ledger) (id : TroubleId) :
    (ledger.removeTrouble id).2.days = ledger.days := by
  unfold removeTrouble
  split
  · rfl
  · rfl

/-- A write takes identifiers away, or gives the next one to a single new entry. -/
theorem Wrote.ids {before after : Ledger} (wrote : before.Wrote after) (sound : before.Sound)
    (tagged : before.Tagged) :
    (after.ids.Sublist before.ids ∧ after.nextId = before.nextId) ∨
      (after.ids.Perm (before.freshId :: before.ids) ∧ after.nextId = before.freshId + 1) := by
  cases wrote with
  | @placed draft _ =>
    refine .inr ⟨?_, rfl⟩
    simp only [Ledger.ids, placeAbsence_records sound, List.map_append, List.append_assoc]
    exact List.perm_middle
  | @removed id held =>
    refine .inl ⟨?_, removeAbsence_nextId before id⟩
    have annotations : (before.removeAbsence id).2.annotations =
        before.annotations.filter fun t => t.absence ≠ id := by
      unfold removeAbsence
      rw [if_pos held]
      exact OrderedMap.values_filter _ _
    simp only [Ledger.ids, removeAbsence_records sound, annotations, removeAbsence_days]
    exact ((List.filter_sublist.map _).append (List.filter_sublist.map _)).append (.refl _)
  | @annotated absence problem held =>
    refine .inr ⟨?_, rfl⟩
    simp only [Ledger.ids, putTrouble_annotations tagged, List.map_append, List.append_assoc]
    exact (List.Perm.append_left _ List.perm_middle).trans List.perm_middle
  | @cleared id _ =>
    obtain ⟨absences, nextId⟩ := removeTrouble_keeps before id
    refine .inl ⟨?_, nextId⟩
    simp only [Ledger.ids, records, absences, (removeTrouble_annotations tagged id).1, removeTrouble_days]
    exact ((List.Sublist.refl _).append (List.filter_sublist.map _)).append (.refl _)
  | @opened person date absent =>
    have days := OrderedMap.values_insert_perm absent before.freshId
    exact .inr ⟨(days.append_left _).trans List.perm_middle, rfl⟩

/-- A write is counted once. -/
theorem Wrote.mutations {before after : Ledger} (wrote : before.Wrote after) :
    after.mutations = before.mutations + 1 := by
  cases wrote with
  | placed _ => rfl
  | removed held => rw [removeAbsence, if_pos held]
  | annotated _ _ => rfl
  | cleared present => rw [removeTrouble, if_pos present]
  | opened _ => rfl

/-- A write changes a table: it puts an entry under a new key or takes one away. -/
theorem Wrote.changes {before after : Ledger} (wrote : before.Wrote after) (sound : before.Sound)
    (tagged : before.Tagged) : ¬ SameTables before after := by
  rintro ⟨absences, troubles, days⟩
  have record? (id : AbsenceId) : after.record? id = before.record? id := by
    rw [Ledger.record?, absences, Ledger.record?]
  cases wrote with
  | @placed draft _ =>
    have new := record? before.freshId
    rw [record?_placeAbsence, if_pos rfl, sound.record?_freshId] at new
    cases new
  | @removed id held =>
    have gone := record? id
    rw [removeAbsence_record?, if_pos rfl] at gone
    rw [holds, ← gone] at held
    cases held
  | @annotated absence problem _ =>
    have new : before.troubles.get? before.freshId = some (before.putTrouble absence problem).1 := by
      rw [← troubles, putTrouble, OrderedMap.get?_insert, if_pos rfl]
    exact absurd (tagged.below new) (Nat.not_lt.2 (Nat.le_max_left _ _))
  | @cleared id present =>
    have gone := removeTrouble_get? before id id
    rw [troubles, if_pos rfl] at gone
    rw [OrderedMap.contains, gone] at present
    cases present
  | @opened person date absent =>
    have new : before.days.get? (person, date) = some before.freshId := by
      rw [← days, putDay, OrderedMap.get?_insert, if_pos rfl]
    cases new.symm.trans absent

/-- Records and annotations stand under their identifiers, and every identifier in use is below the next. -/
structure Numbered (ledger : Ledger) : Prop where
  sound : ledger.Sound
  tagged : ledger.Tagged
  below {id : Nat} : id ∈ ledger.ids → id < ledger.nextId

theorem Wrote.sound {before after : Ledger} (wrote : before.Wrote after) (sound : before.Sound) :
    after.Sound := by
  cases wrote with
  | placed _ => exact sound.placeAbsence _
  | removed _ => exact sound.removeAbsence _
  | @annotated absence problem _ =>
    have later : before.Later (before.putTrouble absence problem).2 :=
      sound.later_of_absences rfl (Nat.le_succ_of_le (Nat.le_max_left _ _))
    exact later.sound
  | @cleared id _ =>
    obtain ⟨absences, nextId⟩ := removeTrouble_keeps before id
    exact (sound.later_of_absences absences (Nat.le_of_eq nextId.symm)).sound
  | opened _ => exact sound.putDay _ _

theorem Wrote.tagged {before after : Ledger} (wrote : before.Wrote after) (tagged : before.Tagged) :
    after.Tagged := by
  cases wrote with
  | placed _ => exact tagged.fewer (Nat.le_succ_of_le (Nat.le_max_left _ _)) fun _ _ found => found
  | @removed id _ =>
    exact tagged.fewer (Nat.le_of_eq (removeAbsence_nextId before id).symm)
      fun _ _ found => (removeAbsence_troubles.1 found).1
  | annotated problem _ => exact tagged.putTrouble _ problem
  | cleared _ => exact tagged.removeTrouble _
  | opened _ => exact tagged.fewer (Nat.le_succ_of_le (Nat.le_max_left _ _)) fun _ _ found => found

theorem Numbered.wrote {before after : Ledger} (numbered : before.Numbered) (wrote : before.Wrote after) :
    after.Numbered where
  sound := wrote.sound numbered.sound
  tagged := wrote.tagged numbered.tagged
  below {id} used := by
    have step := wrote.ids numbered.sound numbered.tagged
    have fresh : before.nextId ≤ before.freshId := Nat.le_max_left _ _
    rcases step with ⟨fewer, nextId⟩ | ⟨grown, nextId⟩
    · rw [nextId]
      exact numbered.below (fewer.subset used)
    · rw [nextId]
      rcases List.mem_cons.1 (grown.subset used) with rfl | old
      · exact Nat.lt_succ_self _
      · exact Nat.lt_succ_of_lt (Nat.lt_of_lt_of_le (numbered.below old) fresh)

theorem Numbered.of_days {ledger : Ledger} (sound : ledger.Sound) (tagged : ledger.Tagged)
    (days : ∀ day ∈ ledger.days.values, day < ledger.nextId) : ledger.Numbered where
  sound := sound
  tagged := tagged
  below {id} used := by
    rcases List.mem_append.1 used with used | used
    · rcases List.mem_append.1 used with used | used
      · obtain ⟨a, ha, rfl⟩ := List.mem_map.1 used
        exact sound.below (sound.mem_records_iff.1 ha)
      · obtain ⟨t, ht, rfl⟩ := List.mem_map.1 used
        exact tagged.id_lt ht
    · exact days id used

theorem Proper.numbered {ledger : Ledger} (proper : ledger.Proper) : ledger.Numbered :=
  .of_days proper.sound proper.tagged fun _ => proper.rostered.below

theorem Proper.wrote {before after : Ledger} (proper : before.Proper) (wrote : before.Wrote after) :
    after.Proper := by
  cases wrote with
  | placed _ => exact proper.placeAbsence _
  | removed _ => exact proper.removeAbsence _
  | annotated problem held => exact proper.putTrouble held problem
  | cleared _ => exact proper.removeTrouble _
  | opened absent => exact proper.putDay absent

/-- No identifier is used twice, within a table or across tables. -/
theorem Wrote.once {before after : Ledger} (wrote : before.Wrote after) (numbered : before.Numbered)
    (once : before.ids.Nodup) : after.ids.Nodup := by
  rcases wrote.ids numbered.sound numbered.tagged with ⟨fewer, -⟩ | ⟨grown, -⟩
  · exact once.sublist fewer
  · refine grown.nodup_iff.2 (List.nodup_cons.2 ⟨fun used => ?_, once⟩)
    exact Nat.not_lt.2 (Nat.le_max_left _ _) (numbered.below used)

/-- A record that may refer to an attendance day refers to one of its person's. -/
theorem day_of_checkDay {ledger : Ledger} {draft : AbsenceDraft} (checked : ledger.checkDay draft = .ok ())
    {day : DayId} (refers : draft.day = some day) : ∃ date, ledger.day? draft.person date = some day := by
  simp only [checkDay, refers] at checked
  cases owned : ledger.dayOwner? day with
  | none =>
    rw [owned] at checked
    cases checked
  | some owner =>
    rw [owned] at checked
    dsimp only at checked
    split at checked
    · next own =>
      obtain ⟨⟨⟨person, date⟩, day'⟩, found, rfl⟩ := Option.map_eq_some_iff.1 owned
      have named : day' = day := by simpa using List.find?_some found
      refine ⟨date, OrderedMap.get?_eq_some_iff.2 ?_⟩
      rw [← own, ← named]
      exact List.mem_of_find?_eq_some found
    · cases checked

/-- Every record that refers to an attendance day refers to one of its person's. -/
def Housed (ledger : Ledger) : Prop :=
  ∀ a ∈ ledger.records, ∀ day, a.day = some day → ∃ date, ledger.day? a.person date = some day

theorem Housed.wrote {before after : Ledger} (housed : before.Housed) (sound : before.Sound)
    (wrote : before.Wrote after) : after.Housed := by
  intro a ha day refers
  cases wrote with
  | @placed draft checked =>
    rw [placeAbsence_records sound] at ha
    rcases List.mem_append.1 ha with old | new
    · exact housed a old day refers
    · obtain rfl := List.mem_singleton.1 new
      exact day_of_checkDay checked refers
  | @removed id _ =>
    rw [removeAbsence_records sound] at ha
    simp only [day?, removeAbsence_days]
    exact housed a (List.mem_of_mem_filter ha) day refers
  | annotated _ _ => exact housed a ha day refers
  | @cleared id _ =>
    rw [records, (removeTrouble_keeps before id).1] at ha
    simp only [day?, removeTrouble_days]
    exact housed a ha day refers
  | @opened person date absent =>
    obtain ⟨date', found⟩ := housed a ha day refers
    exact ⟨date', (putDay_counts absent).days found⟩

/-- What operations keep in a ledger that was orderly at first. -/
structure Tidy (ledger : Ledger) : Prop where
  proper : ledger.Proper
  once : ledger.ids.Nodup
  housed : ledger.Housed

theorem Tidy.wrote {before after : Ledger} (tidy : before.Tidy) (wrote : before.Wrote after) :
    after.Tidy where
  proper := tidy.proper.wrote wrote
  once := wrote.once tidy.proper.numbered tidy.once
  housed := tidy.housed.wrote tidy.proper.sound wrote

theorem tidy_empty : empty.Tidy where
  proper := {
    sound := ⟨nofun, nofun⟩
    tagged := ⟨nofun, nofun⟩
    rostered := ⟨List.nodup_nil, nofun⟩
    attached := nofun }
  once := List.nodup_nil
  housed _ h := absurd h List.not_mem_nil

theorem atomically_ending (succeeds : Bool) (body : Ledger → Ledger) (ledger : Ledger) :
    leftBy (atomically (ending succeeds body)) ledger = if succeeds then body ledger else ledger := by
  cases succeeds with
  | true => rfl
  | false => rfl

/-- What an operation leaves behind is the ledger as it was, or with a write. -/
theorem Operation.leftBy_run (operation : Operation) (ledger : Ledger) :
    leftBy operation.run ledger = ledger ∨ ledger.Wrote (leftBy operation.run ledger) := by
  have ran := operation.ran ledger
  unfold leftBy
  generalize operation.run ledger = result at ran
  cases ran with
  | failed error => exact .inl rfl
  | exhausted => exact .inl rfl
  | idle => exact .inl rfl
  | wrote written => exact .inr written

/-- What every write keeps, every script keeps. -/
theorem Script.run_keeps {P : Ledger → Prop}
    (step : ∀ {before after : Ledger}, P before → before.Wrote after → P after)
    (script : Script) {ledger : Ledger} (start : P ledger) : P (script.run ledger) := by
  induction script generalizing ledger with
  | done => exact start
  | operate operation rest ih =>
    refine ih ?_
    rcases operation.leftBy_run ledger with same | wrote
    · rwa [same]
    · exact step start wrote
  | transact body succeeds rest inner ih =>
    refine ih ?_
    rw [atomically_ending]
    cases succeeds with
    | true => exact inner start
    | false => exact start

/-- The count of writes goes up by the operations that change a table. -/
theorem Script.run_mutations (script : Script) {ledger : Ledger} (numbered : ledger.Numbered) :
    (script.run ledger).mutations = ledger.mutations + script.writes ledger := by
  induction script generalizing ledger with
  | done => rfl
  | operate operation rest ih =>
    show (rest.run (leftBy operation.run ledger)).mutations = _ + (_ + rest.writes _)
    rcases operation.leftBy_run ledger with same | wrote
    · rw [same, if_pos ⟨rfl, rfl, rfl⟩, Nat.zero_add]
      exact ih numbered
    · rw [if_neg (wrote.changes numbered.sound numbered.tagged), ih (numbered.wrote wrote),
        wrote.mutations, Nat.add_assoc]
  | transact body succeeds rest inner ih =>
    show (rest.run (leftBy _ ledger)).mutations = _ + (_ + rest.writes (leftBy _ ledger))
    rw [atomically_ending]
    cases succeeds with
    | true =>
      rw [if_pos rfl, if_pos rfl, ih (body.run_keeps Numbered.wrote numbered), inner numbered, Nat.add_assoc]
    | false =>
      rw [if_neg Bool.false_ne_true, if_neg Bool.false_ne_true, Nat.zero_add]
      exact ih numbered

/-- Every identifier in use is below the next and used once, annotations are on records that are there, and
records refer to attendance days of their persons. -/
structure Orderly (ledger : Ledger) : Prop where
  numbered : ledger.Numbered
  once : ledger.ids.Nodup
  attached {t : Trouble} : t ∈ ledger.annotations → ∃ a ∈ ledger.records, a.id = t.absence
  housed : ledger.Housed

/-- What fails on a ledger leaves it as it was, its counters included. -/
structure Guarded (ledger : Ledger) : Prop where
  operation {operation : Operation} {error : LedgerRefusal} {after : Ledger} :
    operation.run ledger = .error error after → after = ledger
  transaction {ε α : Type} {action : LedgerAction ε α} {error : ε} {after : Ledger} :
    atomically action ledger = .error error after → after = ledger

/-- A list holds a person's records of a window, each once, by date and identifier. -/
structure Lists (ledger : Ledger) (person : PersonId) (first last : Date) (l : List Absence) : Prop where
  mem {a : Absence} :
    a ∈ l ↔ a ∈ ledger.records ∧ a.person = person ∧ first ≤ a.date ∧ a.date ≤ last
  strict : l.Pairwise fun a b => a.date < b.date ∨ (a.date = b.date ∧ a.id < b.id)

theorem guarded (ledger : Ledger) : ledger.Guarded where
  operation {operation error after} failed := by
    have ran := operation.ran ledger
    rw [failed] at ran
    cases ran with
    | failed error => rfl
  transaction failed := (atomically_error failed).1

/-- Records whose identifiers differ stand in strict order. -/
theorem lists_absencesIn {ledger : Ledger} (once : (ledger.records.map (·.id)).Nodup) (person : PersonId)
    (first last : Date) : ledger.Lists person first last (ledger.absencesIn person first last) where
  mem {a} := mem_absencesIn
  strict := by
    have distinct : (ledger.absencesIn person first last).Pairwise fun a b => a.id ≠ b.id := by
      have records := (List.pairwise_map.1 once).filter fun a =>
        a.person = person && first ≤ a.date && a.date ≤ last
      exact (Absence.inOrder_perm _).symm.pairwise records Ne.symm
    refine (distinct.and (Absence.inOrder_sorted _)).imp fun {a b} ⟨apart, ordered⟩ => ?_
    rcases of_decide_eq_true ordered with earlier | ⟨same, le⟩
    · exact .inl earlier
    · exact .inr ⟨same, Nat.lt_of_le_of_ne le apart⟩

/-- Whatever is done to the empty ledger, by operations that may fail and by transactions that may be rolled
back, leaves an orderly ledger, on which failures change nothing and windows list records in strict order; and
the count of writes is that of the operations that changed a table and were not rolled back. -/
theorem scripts_keep_order (script : Script) :
    (script.run .empty).Orderly ∧ (script.run .empty).Guarded ∧
      (∀ person first last, (script.run .empty).Lists person first last
        ((script.run .empty).absencesIn person first last)) ∧
      (script.run .empty).mutations = script.writes .empty := by
  obtain ⟨proper, once, housed⟩ := script.run_keeps Tidy.wrote tidy_empty
  have attached {t : Trouble} (ht : t ∈ (script.run .empty).annotations) :
      ∃ a ∈ (script.run .empty).records, a.id = t.absence := by
    obtain ⟨id, found⟩ := mem_annotations.1 ht
    obtain ⟨a, held⟩ := Option.isSome_iff_exists.1 (proper.attached id t found)
    exact ⟨a, mem_records.2 ⟨_, held⟩, proper.sound.keyed held⟩
  have records : ((script.run .empty).records.map (·.id)).Nodup :=
    once.sublist ((List.sublist_append_left _ _).trans (List.sublist_append_left _ _))
  refine ⟨⟨proper.numbered, once, attached, housed⟩, guarded _, lists_absencesIn records, ?_⟩
  exact (script.run_mutations tidy_empty.proper.numbered).trans (Nat.zero_add _)

/-- A record comes and goes; in between, an annotation and a day are rolled back, although the day was
created by a transaction that succeeded. -/
example : (Script.operate (.addAbsence ⟨1, "X", .sample 2024 3 5, .allDay, none, none⟩)
    (.transact (.operate (.annotate 1 .limitExceeded)
        (.transact (.operate (.ensureDay 1 (.sample 2024 3 5)) .done) true .done)) false
      (.operate (.removeAbsence 1) (.operate (.removeAbsence 1) .done)))).run .empty =
    { empty with nextId := 2, mutations := 2 } := by
  cbv

end Ledger

end Entitlement
