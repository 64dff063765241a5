import Entitlement.Proofs.Renumbering.Writing

/-!
Two ledgers side by side. What they hold of some persons is the same up to a renumbering, what they hold of
others is left alone in both. Every action for one of the persons keeps them so, and gives the renumbered
answer: looking up and writing go to the persons' part of each ledger, and the parts correspond.
-/

namespace Entitlement

open Ledger

structure Twins (s : Shift) (who : PersonId → Bool) (start start' l l' : Ledger) : Prop where
  proper : l.Proper
  proper' : l'.Proper
  later : s.first ≤ l.nextId
  own : l'.part who = s.ledger (l.part who)
  spares : Spares who start l
  spares' : Spares who start' l'

/-- Results on two ledgers: renumbered answers, or the same error, and corresponding ledgers; unless the second
ledger, which gives out the greater identifiers, has exhausted them. -/
inductive Twinned (R : Ledger → Ledger → Prop) {ε α : Type} (answer : α → α) :
    ActionResult ε α → ActionResult ε α → Prop where
  | ok {l l' : Ledger} (a : α) (twins : R l l') : Twinned R answer (.ok a l) (.ok (answer a) l')
  | error {l l' : Ledger} (e : ε) (twins : R l l') : Twinned R answer (.error e l) (.error e l')
  | exhausted (r : ActionResult ε α) : Twinned R answer r .exhausted

/-- Actions one after the other, the second with the answer of the first. -/
theorem Twinned.bind {R : Ledger → Ledger → Prop} {ε α β : Type} {answer : α → α} {answer' : β → β}
    {x x' : LedgerAction ε α} {f f' : α → LedgerAction ε β} {l l' : Ledger}
    (first : Twinned R answer (x l) (x' l'))
    (next : ∀ a k k', x l = .ok a k → x' l' = .ok (answer a) k' → R k k' →
      Twinned R answer' (f a k) (f' (answer a) k')) :
    Twinned R answer' ((x >>= f) l) ((x' >>= f') l') := by
  simp only [Bind.bind]
  generalize ran : x l = r at first next
  generalize ran' : x' l' = r' at first next
  cases first with
  | ok a twins => exact next a _ _ rfl rfl twins
  | error e twins => exact .error e twins
  | exhausted r => exact .exhausted _

namespace Twins

variable {s : Shift} {who : PersonId → Bool} {start start' l l' : Ledger}

structure Ours (s : Shift) (who : PersonId → Bool) (l l' : Ledger) (id : AbsenceId) : Prop where
  left : l.Owns who id
  right : l'.Owns who (s.number id)

theorem Ours.spared {after after' : Ledger} {id : AbsenceId} (ours : Ours s who l l' id)
    (spares : Spares who l after) (spares' : Spares who l' after') : Ours s who after after' id :=
  ⟨spares.owns ours.left, spares'.owns ours.right⟩

theorem record? (t : Twins s who start start' l l') {id : AbsenceId} (ours : Ours s who l l' id) :
    l'.record? (s.number id) = (l.record? id).map s.record := by
  rw [← record?_part_of_owns ours.right, t.own, s.record?_ledger, record?_part_of_owns ours.left]

/-- A record of one of the persons has its counterpart. -/
theorem found (t : Twins s who start start' l l') {id : AbsenceId} {a : Absence}
    (found : l.record? id = some a) (mine : who a.person = true) :
    l'.record? (s.number id) = some (s.record a) := by
  have here : (l'.part who).record? (s.number id) = some (s.record a) := by
    rw [t.own, s.record?_ledger, record?_part, found, Option.filter_some, if_pos mine]
    rfl
  rw [record?_part] at here
  exact (Option.filter_eq_some_iff.1 here).1

theorem ours_of_found (t : Twins s who start start' l l') {id : AbsenceId} {a : Absence}
    (found : l.record? id = some a) (mine : who a.person = true) : Ours s who l l' id := by
  constructor
  · intro b here
    cases found.symm.trans here
    exact mine
  · intro b here
    cases (t.found found mine).symm.trans here
    exact mine

theorem absencesIn (t : Twins s who start start' l l') {person : PersonId} (mine : who person = true)
    (first last : Date) : l'.absencesIn person first last = (l.absencesIn person first last).map s.record := by
  rw [← absencesIn_part mine, t.own, s.absencesIn_ledger, absencesIn_part mine]

theorem troublesOf (t : Twins s who start start' l l') {id : AbsenceId} {a : Absence}
    (found : l.record? id = some a) (mine : who a.person = true) :
    l'.troublesOf (s.number id) = (l.troublesOf id).map s.trouble := by
  rw [← troublesOf_part (t.found found mine) mine, t.own, s.troublesOf_ledger, troublesOf_part found mine]

theorem later_part (t : Twins s who start start' l l') : s.first ≤ (l.part who).nextId :=
  t.later

/-- What does the same to the persons' part as to the whole ledger, and to the renumbered part the same
renumbered, keeps the ledgers twins. -/
theorem act {α : Type} (t : Twins s who start start' l l') (answer : α → α)
    (action action' : Ledger → α × Ledger)
    (part : action (l.part who) = ((action l).1, (action l).2.part who))
    (part' : action' (l'.part who) = ((action' l').1, (action' l').2.part who))
    (commutes : action' (s.ledger (l.part who)) =
      (answer (action (l.part who)).1, s.ledger (action (l.part who)).2))
    (proper : (action l).2.Proper) (proper' : (action' l').2.Proper)
    (nextId : l.nextId ≤ (action l).2.nextId) (spares : Spares who l (action l).2)
    (spares' : Spares who l' (action' l').2) :
    (action' l').1 = answer (action l).1 ∧ Twins s who start start' (action l).2 (action' l').2 := by
  rw [part, ← t.own, part'] at commutes
  obtain ⟨answers, own⟩ := Prod.mk.inj commutes
  exact ⟨answers, proper, proper', Nat.le_trans t.later nextId, own, t.spares.trans spares,
    t.spares'.trans spares'⟩

theorem day? (t : Twins s who start start' l l') {person : PersonId} (mine : who person = true)
    (date : Date) : l'.day? person date = (l.day? person date).map s.number := by
  rw [← day?_part mine, t.own, s.day?_ledger, day?_part mine]

/-- While the second ledger has an identifier left, so has the first. -/
theorem freshId_lt (t : Twins s who start start' l l') (room : l'.freshId < greatestId) :
    l.freshId < greatestId := by
  have next : l'.nextId = s.number l.nextId := congrArg (·.nextId) t.own
  have upward := s.upward
  rw [s.number_new t.later] at next
  unfold freshId at room ⊢
  omega

/-- Entries that are written alike, for as long as there are identifiers for them. -/
theorem allocating {ε α : Type} (t : Twins s who start start' l l') {answer : α → α}
    {write write' : Ledger → α × Ledger} (alike : (write' l').1 = answer (write l).1 ∧
      Twins s who start start' (write l).2 (write' l').2) :
    Twinned (ε := ε) (Twins s who start start') answer (Ledger.allocating write l)
      (Ledger.allocating write' l') := by
  unfold Ledger.allocating
  by_cases room : l'.freshId < greatestId
  · rw [if_pos room, if_pos (t.freshId_lt room), alike.1]
    exact .ok _ alike.2
  · rw [if_neg room]
    exact .exhausted _

theorem putDay (t : Twins s who start start' l l') {person : PersonId} (mine : who person = true)
    {date : Date} (absent : l.day? person date = none) :
    (l'.putDay person date).1 = s.number (l.putDay person date).1 ∧
      Twins s who start start' (l.putDay person date).2 (l'.putDay person date).2 := by
  have absent' : l'.day? person date = none := by rw [t.day? mine, absent]; rfl
  exact t.act s.number (·.putDay person date) (·.putDay person date) (putDay_part mine date)
    (putDay_part mine date) (s.putDay_ledger t.later_part person date) (t.proper.putDay absent)
    (t.proper'.putDay absent') (Nat.le_succ_of_le (Nat.le_max_left _ _)) (spares_putDay mine date)
    (spares_putDay mine date)

theorem ensureDay (t : Twins s who start start' l l') {person : PersonId} (mine : who person = true)
    (date : Date) : Twinned (Twins s who start start') s.number (Ledger.ensureDay person date l)
      (Ledger.ensureDay person date l') := by
  unfold Ledger.ensureDay
  rw [t.day? mine]
  cases absent : l.day? person date with
  | some day => exact .ok day t
  | none => exact t.allocating (t.putDay mine absent)

theorem placeAbsence (t : Twins s who start start' l l') (draft : AbsenceDraft)
    (mine : who draft.person = true) :
    (l'.placeAbsence (s.draft draft)).1 = s.record (l.placeAbsence draft).1 ∧
      Twins s who start start' (l.placeAbsence draft).2 (l'.placeAbsence (s.draft draft)).2 := by
  have mine' : who (s.draft draft).person = true := mine
  exact t.act s.record (·.placeAbsence draft) (·.placeAbsence (s.draft draft))
    (placeAbsence_part t.proper mine) (placeAbsence_part t.proper' mine')
    (s.placeAbsence_ledger t.later_part draft) (t.proper.placeAbsence draft) (t.proper'.placeAbsence _)
    (Nat.le_succ_of_le (Nat.le_max_left _ _)) (t.proper.spares_placeAbsence mine)
    (t.proper'.spares_placeAbsence mine')

theorem removeAbsence (t : Twins s who start start' l l') {id : AbsenceId} (ours : Ours s who l l' id) :
    (l'.removeAbsence (s.number id)).1 = (l.removeAbsence id).1 ∧
      Twins s who start start' (l.removeAbsence id).2 (l'.removeAbsence (s.number id)).2 :=
  t.act (fun found => found) (·.removeAbsence id) (·.removeAbsence (s.number id))
    (removeAbsence_part ours.left) (removeAbsence_part ours.right) (s.removeAbsence_ledger id)
    (t.proper.removeAbsence id) (t.proper'.removeAbsence _) (Nat.le_of_eq (removeAbsence_nextId l id).symm)
    (spares_removeAbsence ours.left) (spares_removeAbsence ours.right)

theorem putTrouble (t : Twins s who start start' l l') {absence : AbsenceId} {a : Absence}
    (found : l.record? absence = some a) (mine : who a.person = true) (problem : Problem) :
    (l'.putTrouble (s.number absence) problem).1 = s.trouble (l.putTrouble absence problem).1 ∧
      Twins s who start start' (l.putTrouble absence problem).2
        (l'.putTrouble (s.number absence) problem).2 := by
  have found' := t.found found mine
  have held : l.holds absence = true := by rw [holds, found]; rfl
  have held' : l'.holds (s.number absence) = true := by rw [holds, found']; rfl
  exact t.act s.trouble (·.putTrouble absence problem) (·.putTrouble (s.number absence) problem)
    (putTrouble_part found mine problem) (putTrouble_part found' mine problem)
    (s.putTrouble_ledger t.later_part absence problem) (t.proper.putTrouble held problem)
    (t.proper'.putTrouble held' problem) (Nat.le_succ_of_le (Nat.le_max_left _ _))
    (t.proper.spares_putTrouble found mine problem) (t.proper'.spares_putTrouble found' mine problem)

def Tags (l : Ledger) (who : PersonId → Bool) (id : TroubleId) : Prop :=
  ∀ t, l.troubles.get? id = some t → l.isOn who t = true

theorem removeTrouble (t : Twins s who start start' l l') {id : TroubleId} (tags : Tags l who id)
    (tags' : Tags l' who (s.number id)) :
    (l'.removeTrouble (s.number id)).1 = (l.removeTrouble id).1 ∧
      Twins s who start start' (l.removeTrouble id).2 (l'.removeTrouble (s.number id)).2 :=
  t.act (fun found => found) (·.removeTrouble id) (·.removeTrouble (s.number id))
    (removeTrouble_part tags) (removeTrouble_part tags') (s.removeTrouble_ledger id)
    (t.proper.removeTrouble id) (t.proper'.removeTrouble _)
    (Nat.le_of_eq (removeTrouble_keeps l id).2.symm) (spares_removeTrouble tags)
    (spares_removeTrouble tags')

/-- A replacing record is written on both ledgers, on the day of its date in each. -/
theorem addReplacing (t : Twins s who start start' l l') {person : PersonId} (mine : who person = true)
    (addition : Addition) : Twinned (Twins s who start start') s.record
      (Ledger.addReplacing person addition l) (Ledger.addReplacing person addition l') := by
  refine (t.ensureDay mine addition.date).bind fun day k k' ran ran' t => ?_
  let draft : AbsenceDraft := ⟨person, addition.code, addition.date, addition.kind, none, some day⟩
  have checked : k.checkDay draft = .ok () := t.proper.rostered.checkDay (ensureDay_found ran) rfl
  have checked' : k'.checkDay (s.draft draft) = .ok () :=
    t.proper'.rostered.checkDay (ensureDay_found ran') rfl
  show Twinned _ _ (addAbsence draft k) (addAbsence (s.draft draft) k')
  rw [addAbsence_of_checkDay checked, addAbsence_of_checkDay checked']
  exact t.allocating (t.placeAbsence draft mine)

theorem addAll (t : Twins s who start start' l l') {person : PersonId} (mine : who person = true)
    (additions : List Addition) : Twinned (Twins s who start start') (List.map s.record)
      (Ledger.addAll person additions l) (Ledger.addAll person additions l') := by
  induction additions generalizing l l' with
  | nil => exact .ok [] t
  | cons addition rest ih =>
    refine (t.addReplacing mine addition).bind fun record k k' _ _ t => ?_
    exact (ih t).bind fun later k k' _ _ t => .ok (record :: later) t

theorem removeAll (t : Twins s who start start' l l') (ids : List AbsenceId)
    (ours : ∀ id ∈ ids, Ours s who l l' id) :
    (l'.removeAll (ids.map s.number)).1 = (l.removeAll ids).1.map s.number ∧
      (l'.removeAll (ids.map s.number)).2.1 = (l.removeAll ids).2.1.map s.number ∧
      Twins s who start start' (l.removeAll ids).2.2 (l'.removeAll (ids.map s.number)).2.2 := by
  induction ids generalizing l l' with
  | nil => exact ⟨rfl, rfl, t⟩
  | cons id rest ih =>
    have first := ours id List.mem_cons_self
    obtain ⟨answer, twins⟩ := t.removeAbsence first
    obtain ⟨deleted, skipped, twins⟩ := ih twins fun id' h => (ours id' (List.mem_cons_of_mem _ h)).spared
      (spares_removeAbsence first.left) (spares_removeAbsence first.right)
    simp only [List.map_cons, Ledger.removeAll, answer]
    split
    · exact ⟨by rw [List.map_cons, deleted], skipped, twins⟩
    · exact ⟨deleted, by rw [List.map_cons, skipped], twins⟩

theorem carryOut (t : Twins s who start start' l l') {repair : Repair} (mine : who repair.person = true)
    (ours : ∀ removal ∈ repair.removals, Ours s who l l' removal.absence) :
    Twinned (Twins s who start start') s.effect (Ledger.carryOut repair l)
      (Ledger.carryOut (s.repair repair) l') := by
  obtain ⟨deleted, skipped, twins⟩ := t.removeAll (repair.removals.map (·.absence)) fun id h => by
    obtain ⟨removal, mem, rfl⟩ := List.mem_map.1 h
    exact ours removal mem
  have removals : (s.repair repair).removals.map (·.absence) =
      (repair.removals.map (·.absence)).map s.number := by
    simp only [Renumbering.repair, List.map_map]
    rfl
  have added := twins.addAll mine repair.additions
  have asked : (s.repair repair).person = repair.person ∧
      (s.repair repair).additions = repair.additions := ⟨rfl, rfl⟩
  unfold Ledger.carryOut
  simp only [removals, asked]
  generalize Ledger.addAll repair.person repair.additions
    (l.removeAll (repair.removals.map (·.absence))).2.2 = r at added
  generalize Ledger.addAll repair.person repair.additions
    (l'.removeAll ((repair.removals.map (·.absence)).map s.number)).2.2 = r' at added
  cases added with
  | ok inserted twins =>
    simp only [deleted, skipped]
    exact .ok (RepairEffect.mk _ _ inserted) twins
  | error e twins => exact .error _ twins
  | exhausted r => exact .exhausted _

theorem removeTroubles (t : Twins s who start start' l l') (ids : List TroubleId)
    (tags : ∀ id ∈ ids, Tags l who id) (tags' : ∀ id ∈ ids, Tags l' who (s.number id)) :
    (l'.removeTroubles (ids.map s.number)).1 = (l.removeTroubles ids).1 ∧
      Twins s who start start' (l.removeTroubles ids).2 (l'.removeTroubles (ids.map s.number)).2 := by
  have keeps {l : Ledger} {id id' : TroubleId} (tags : Tags l who id') : Tags (l.removeTrouble id).2 who id' := by
    intro t found
    rw [removeTrouble_get?] at found
    split at found
    · cases found
    · refine (isOn_congr ?_).trans (tags t found)
      rw [Ledger.record?, (removeTrouble_keeps l id).1, Ledger.record?]
  induction ids generalizing l l' with
  | nil => exact ⟨rfl, t⟩
  | cons id rest ih =>
    obtain ⟨answer, twins⟩ := t.removeTrouble (tags id List.mem_cons_self) (tags' id List.mem_cons_self)
    obtain ⟨count, twins⟩ := ih twins (fun id' h => keeps (tags id' (List.mem_cons_of_mem _ h)))
      fun id' h => keeps (tags' id' (List.mem_cons_of_mem _ h))
    simp only [List.map_cons, Ledger.removeTroubles, answer, count]
    exact ⟨trivial, twins⟩

theorem annotateAll (t : Twins s who start start' l l') {absence : AbsenceId} {a : Absence}
    (found : l.record? absence = some a) (mine : who a.person = true) (problems : List Problem) :
    Twinned (Twins s who start start') id (Ledger.annotateAll absence problems l)
      (Ledger.annotateAll (s.number absence) problems l') := by
  induction problems generalizing l l' with
  | nil => exact .ok () t
  | cons problem rest ih =>
    have held : l.holds absence = true := by rw [holds, found]; rfl
    have held' : l'.holds (s.number absence) = true := by rw [holds, t.found found mine]; rfl
    have one : Twinned (Twins s who start start') s.trouble (annotate absence problem l)
        (annotate (s.number absence) problem l') := by
      rw [annotate_of_holds held, annotate_of_holds held']
      exact t.allocating (t.putTrouble found mine problem)
    refine one.bind fun trouble k k' ran _ t => ih t ?_
    obtain ⟨-, -, -, rfl⟩ := annotate_ok_iff.1 ran
    exact found

/-- The stale annotations of a record of the persons are on that record. -/
theorem tags_of_stale {l : Ledger} (proper : l.Proper) {absence : AbsenceId} {a : Absence}
    (found : l.record? absence = some a) (mine : who a.person = true) (wanted : OrderedSet Problem) :
    ∀ id ∈ (splitTroubles wanted ∅ (l.troublesOf absence)).2, Tags l who id := by
  intro id stale
  obtain ⟨u, hu, named⟩ := mem_of_stale stale
  obtain ⟨⟨k, here⟩, on⟩ := mem_troublesOf.1 hu
  intro t there
  have same : k = id := (proper.tagged.keyed here).symm.trans named
  rw [same, there] at here
  cases here
  rw [isOn, on, found]
  exact mine

theorem reconcileRecord (t : Twins s who start start' l l') {removed : OrderedSet AbsenceId}
    {wanted : OrderedSet Problem} {absence : AbsenceId} (ours : Ours s who l l' absence) :
    Twinned (Twins s who start start') id (Ledger.reconcileRecord removed wanted absence l)
      (Ledger.reconcileRecord (removed.relabel s.embeds) wanted (s.number absence) l') := by
  have held : l'.holds (s.number absence) = l.holds absence := by
    rw [holds, t.record? ours, Option.isSome_map, holds]
  unfold Ledger.reconcileRecord
  rw [OrderedSet.contains_relabel, held]
  split
  · exact .ok TroubleCount.zero t
  · next here =>
    rw [Bool.or_eq_true, not_or, Bool.not_eq_true', Bool.not_eq_false] at here
    obtain ⟨a, found⟩ := Option.isSome_iff_exists.1 here.2
    have mine := ours.left a found
    have found' := t.found found mine
    have troubles := t.troublesOf found mine
    have split := s.splitTroubles_troubles wanted ∅ (l.troublesOf absence)
    rw [← troubles] at split
    have tags := tags_of_stale t.proper found mine wanted
    have tags' := tags_of_stale t.proper' found' mine wanted
    rw [split] at tags'
    simp only [split]
    generalize splitTroubles wanted ∅ (l.troublesOf absence) = kept at tags tags' ⊢
    obtain ⟨count, twins⟩ := t.removeTroubles kept.2 tags
      fun id h => tags' _ (List.mem_map_of_mem h)
    have still : (l.removeTroubles kept.2).2.record? absence = some a := by
      rw [Ledger.record?, removeTroubles_absences]
      exact found
    have annotated := twins.annotateAll still mine (wanted.filter fun problem => !kept.1.contains problem).toList
    generalize Ledger.annotateAll absence _ _ = r at annotated
    generalize Ledger.annotateAll (s.number absence) _ _ = r' at annotated
    cases annotated with
    | ok _ twins =>
      simp only [count]
      exact .ok (TroubleCount.mk _ _) twins
    | error e twins => exact .error e twins
    | exhausted r => exact .exhausted _

theorem reconcile (t : Twins s who start start' l l') (removed : OrderedSet AbsenceId) (findings : Findings)
    {ids : List AbsenceId} (ours : ∀ id ∈ ids, Ours s who start start' id) :
    Twinned (Twins s who start start') id (Ledger.reconcile removed findings ids l)
      (Ledger.reconcile (removed.relabel s.embeds) (s.findings findings) (ids.map s.number) l') := by
  induction ids generalizing l l' with
  | nil => exact .ok TroubleCount.zero t
  | cons absence rest ih =>
    simp only [List.map_cons, Ledger.reconcile, s.problemsOf_findings]
    refine (t.reconcileRecord ((ours absence List.mem_cons_self).spared t.spares t.spares')).bind
      fun count k k' _ _ t => ?_
    exact (ih t fun id h => ours id (List.mem_cons_of_mem _ h)).bind fun others k k' _ _ t => .ok _ t

end Twins

end Entitlement
