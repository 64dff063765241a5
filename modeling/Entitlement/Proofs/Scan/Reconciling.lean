import Entitlement.Proofs.Ledger.Annotations

/-!
Reconciling makes the annotations of a record those of its problems, each once, and touches no others. It
keeps the first annotation of every problem, and counts what it writes and deletes. Once the annotations are
those of the problems, reconciling again writes nothing.
-/

namespace Entitlement

namespace Ledger

/-- The annotations of a record are those of the wanted problems, each once. -/
structure Annotated (ledger : Ledger) (absence : AbsenceId) (wanted : OrderedSet Problem) : Prop where
  once : ((ledger.troublesOf absence).map (·.problem)).Nodup
  covers : ∀ problem, problem ∈ (ledger.troublesOf absence).map (·.problem) ↔ problem ∈ wanted

theorem mem_of_stale {wanted kept : OrderedSet Problem} {troubles : List Trouble} {id : TroubleId}
    (h : id ∈ (splitTroubles wanted kept troubles).2) : ∃ t ∈ troubles, t.id = id := by
  induction troubles generalizing kept with
  | nil => exact absurd h List.not_mem_nil
  | cons first rest ih =>
    unfold splitTroubles at h
    split at h
    · obtain ⟨t, ht, same⟩ := ih h
      exact ⟨t, List.mem_cons_of_mem _ ht, same⟩
    · rcases List.mem_cons.1 h with rfl | h
      · exact ⟨first, List.mem_cons_self, rfl⟩
      · obtain ⟨t, ht, same⟩ := ih h
        exact ⟨t, List.mem_cons_of_mem _ ht, same⟩

/-- A problem is newly kept if it is wanted and not kept yet. -/
theorem newly_kept_iff {wanted kept : OrderedSet Problem} {p : Problem} :
    (wanted.contains p && !kept.contains p) = true ↔ p ∈ wanted ∧ p ∉ kept := by
  rw [Bool.and_eq_true, Bool.not_eq_true', Bool.eq_false_iff, ne_eq, OrderedSet.contains_iff,
    OrderedSet.contains_iff]

/-- What is left without the stale annotations has each problem once; they are wanted, and are those that
are newly kept. -/
theorem splitTroubles_left {wanted kept : OrderedSet Problem} {troubles left : List Trouble}
    (distinct : troubles.Pairwise fun t u => t.id ≠ u.id)
    (h : left = troubles.filter fun t => t.id ∉ (splitTroubles wanted kept troubles).2) :
    (left.map (·.problem)).Nodup ∧ (∀ p ∈ left.map (·.problem), p ∈ wanted ∧ p ∉ kept) ∧
      ∀ p, p ∈ (splitTroubles wanted kept troubles).1 ↔ p ∈ kept ∨ p ∈ left.map (·.problem) := by
  induction troubles generalizing kept left with
  | nil =>
    subst h
    exact ⟨List.nodup_nil, fun p hp => absurd hp List.not_mem_nil, fun p => by simp [splitTroubles]⟩
  | cons first rest ih =>
    obtain ⟨ahead, behind⟩ := List.pairwise_cons.1 distinct
    unfold splitTroubles at h ⊢
    split
    · next fresh =>
      rw [if_pos fresh] at h
      rw [newly_kept_iff] at fresh
      have stays : first.id ∉ (splitTroubles wanted (kept.insert first.problem) rest).2 := by
        intro stale
        obtain ⟨t, ht, same⟩ := mem_of_stale stale
        exact ahead t ht same.symm
      rw [List.filter_cons, if_pos (decide_eq_true stays)] at h
      generalize tail : rest.filter (fun t =>
        t.id ∉ (splitTroubles wanted (kept.insert first.problem) rest).2) = later at h
      subst h
      obtain ⟨once, sound, covers⟩ := ih behind tail.symm
      refine ⟨List.nodup_cons.2 ⟨fun again => ?_, once⟩, fun p hp => ?_, fun p => ?_⟩
      · exact (sound _ again).2 (OrderedSet.mem_insert.2 (.inl rfl))
      · rcases List.mem_cons.1 hp with rfl | later
        · exact fresh
        · exact ⟨(sound p later).1, fun old => (sound p later).2 (OrderedSet.mem_insert.2 (.inr old))⟩
      · rw [covers, OrderedSet.mem_insert, List.map_cons, List.mem_cons]
        exact ⟨fun h => h.elim (fun h => h.elim (.inr ∘ .inl) .inl) (.inr ∘ .inr),
          fun h => h.elim (.inl ∘ .inr) fun h => h.elim (.inl ∘ .inl) .inr⟩
    · next stale =>
      rw [if_neg stale] at h
      have same : left = rest.filter fun t => t.id ∉ (splitTroubles wanted kept rest).2 := by
        rw [h, List.filter_cons, if_neg (by simp)]
        apply List.filter_congr
        intro t ht
        have other : t.id ≠ first.id := (ahead t ht).symm
        simp [other]
      exact ih behind same

/-- The first annotation of a wanted problem is kept. -/
theorem splitTroubles_first {wanted kept : OrderedSet Problem} {troubles : List Trouble}
    (ascending : troubles.Pairwise fun t u => t.id < u.id) {t : Trouble} (ht : t ∈ troubles)
    (wants : t.problem ∈ wanted) (new : t.problem ∉ kept)
    (lowest : ∀ u ∈ troubles, u.problem = t.problem → t.id ≤ u.id) :
    t.id ∉ (splitTroubles wanted kept troubles).2 := by
  induction troubles generalizing kept with
  | nil => exact absurd ht List.not_mem_nil
  | cons first rest ih =>
    obtain ⟨ahead, behind⟩ := List.pairwise_cons.1 ascending
    have later (u : Trouble) (hu : u ∈ rest) := lowest u (List.mem_cons_of_mem _ hu)
    unfold splitTroubles
    rcases List.mem_cons.1 ht with rfl | ht
    · rw [if_pos (newly_kept_iff.2 ⟨wants, new⟩)]
      intro stale
      obtain ⟨u, hu, same⟩ := mem_of_stale stale
      exact Nat.ne_of_lt (ahead u hu) same.symm
    · have other : first.problem ≠ t.problem := fun same =>
        Nat.not_lt.2 (lowest first List.mem_cons_self same) (ahead t ht)
      split
      · apply ih behind ht _ later
        intro known
        rcases OrderedSet.mem_insert.1 known with same | old
        · exact other same.symm
        · exact new old
      · intro stale
        rcases List.mem_cons.1 stale with same | stale
        · exact Nat.ne_of_lt (ahead t ht) same.symm
        · exact ih behind ht new later stale

/-- Missing are the wanted problems that none of the annotations left has. -/
theorem mem_missing {wanted : OrderedSet Problem} {troubles left : List Trouble}
    (distinct : troubles.Pairwise fun t u => t.id ≠ u.id)
    (h : left = troubles.filter fun t => t.id ∉ (splitTroubles wanted ∅ troubles).2) {p : Problem} :
    p ∈ (wanted.filter fun p => !(splitTroubles wanted ∅ troubles).1.contains p).toList ↔
      p ∈ wanted ∧ p ∉ left.map (·.problem) := by
  obtain ⟨-, -, covers⟩ := splitTroubles_left distinct h
  rw [← OrderedSet.mem_def, OrderedSet.mem_filter, Bool.not_eq_true', Bool.eq_false_iff, ne_eq,
    OrderedSet.contains_iff, covers, or_iff_right OrderedSet.mem_empty]

/-- Annotations of wanted problems, each once, are all kept. -/
theorem splitTroubles_none {wanted kept : OrderedSet Problem} {troubles : List Trouble}
    (once : (troubles.map (·.problem)).Nodup)
    (sound : ∀ p ∈ troubles.map (·.problem), p ∈ wanted ∧ p ∉ kept) :
    (splitTroubles wanted kept troubles).2 = [] := by
  induction troubles generalizing kept with
  | nil => rfl
  | cons first rest ih =>
    obtain ⟨ahead, behind⟩ := List.nodup_cons.1 once
    rw [splitTroubles, if_pos (newly_kept_iff.2 (sound first.problem List.mem_cons_self))]
    apply ih behind
    intro p hp
    obtain ⟨wants, new⟩ := sound p (List.mem_cons_of_mem _ hp)
    refine ⟨wants, fun old => ?_⟩
    rcases OrderedSet.mem_insert.1 old with rfl | old
    · exact ahead hp
    · exact new old

theorem nodup_toList {α : Type} [Ordered α] (s : OrderedSet α) : s.toList.Nodup :=
  s.ascending.imp fun before => Ordered.ne_of_before before

/-- What is done to the annotations of a ledger when some are kept, in their order, and others are written
behind them. All that go and all that come are on records that may be touched. -/
structure Rewrites (touched : AbsenceId → Prop) (before after : Ledger) (count : TroubleCount)
    (kept : Trouble → Bool) (written : List Trouble) : Prop where
  annotations : after.annotations = before.annotations.filter kept ++ written
  removed : count.removed = before.annotations.countP fun t => !kept t
  added : count.added = written.length
  spares {t : Trouble} : t ∈ before.annotations → ¬ touched t.absence → kept t = true
  fresh {t : Trouble} : t ∈ written → touched t.absence ∧ before.nextId ≤ t.id

/-- What reconciling amounts to. The records that may be touched get the annotations of the wanted problems,
if they are there; of the annotations they had the first of each wanted problem stays. -/
structure Reconciles (touched : AbsenceId → Prop) (wanted : AbsenceId → OrderedSet Problem)
    (before after : Ledger) (count : TroubleCount) : Prop where
  tagged : after.Tagged
  absences : after.absences = before.absences
  nextId : before.nextId ≤ after.nextId
  rewrites : ∃ kept written, Rewrites touched before after count kept written
  annotated {id : AbsenceId} : touched id → before.holds id = true → after.Annotated id (wanted id)
  keeps {t : Trouble} : t ∈ before.annotations → t.problem ∈ wanted t.absence →
    (∀ u ∈ before.troublesOf t.absence, u.problem = t.problem → t.id ≤ u.id) → t ∈ after.annotations

section Reconciles

variable {touched : AbsenceId → Prop} {wanted : AbsenceId → OrderedSet Problem} {before after : Ledger}
  {count : TroubleCount}

theorem Rewrites.mem {kept : Trouble → Bool} {written : List Trouble}
    (rewrites : Rewrites touched before after count kept written) {t : Trouble} :
    t ∈ after.annotations ↔ (t ∈ before.annotations ∧ kept t = true) ∨ t ∈ written := by
  rw [rewrites.annotations, List.mem_append, List.mem_filter]

/-- The annotations of other records are left as they are. -/
theorem Reconciles.troublesOf (reconciles : Reconciles touched wanted before after count) {id : AbsenceId}
    (spared : ¬ touched id) : after.troublesOf id = before.troublesOf id := by
  obtain ⟨kept, written, rewrites⟩ := reconciles.rewrites
  have none : written.filter (fun t => t.absence = id) = [] := by
    apply List.filter_eq_nil_iff.2
    intro t ht here
    exact spared (of_decide_eq_true here ▸ (rewrites.fresh ht).1)
  rw [troublesOf_eq, rewrites.annotations, List.filter_append, none, List.append_nil, List.filter_filter]
  apply List.filter_congr
  intro t ht
  by_cases here : t.absence = id
  · rw [rewrites.spares ht (here ▸ spared), Bool.and_true]
  · rw [decide_eq_false here, Bool.false_and]

theorem Reconciles.nothing (tagged : before.Tagged)
    (away : ∀ id, touched id → before.holds id = false) :
    Reconciles touched wanted before before .zero where
  tagged := tagged
  absences := rfl
  nextId := Nat.le_refl _
  rewrites := by
    refine ⟨fun _ => true, [], ?_, ?_, rfl, fun _ _ => rfl, fun ht => absurd ht List.not_mem_nil⟩
    · rw [List.append_nil, List.filter_eq_self.2 fun _ _ => rfl]
    · exact (List.countP_eq_zero.2 fun _ _ => Bool.false_ne_true).symm
  annotated here held := by
    rw [away _ here] at held
    cases held
  keeps ht _ _ := ht

/-- Reconciling some records and then others reconciles all of them. -/
theorem Reconciles.trans (tagged : before.Tagged) {others : AbsenceId → Prop} {last : Ledger}
    {count' : TroubleCount} (first : Reconciles touched wanted before after count)
    (later : Reconciles others wanted after last count') (apart : ∀ id, touched id → ¬ others id) :
    Reconciles (fun id => touched id ∨ others id) wanted before last (count.add count') := by
  obtain ⟨kept, written, rewrites⟩ := first.rewrites
  obtain ⟨kept', written', rewrites'⟩ := later.rewrites
  have stay {t : Trouble} (ht : t ∈ written) : kept' t = true :=
    rewrites'.spares (rewrites.mem.2 (.inr ht)) (apart _ (rewrites.fresh ht).1)
  refine ⟨later.tagged, later.absences.trans first.absences, Nat.le_trans first.nextId later.nextId,
    ⟨fun t => kept t && kept' t, written ++ written', ?_, ?_, ?_, ?_, ?_⟩, ?_, ?_⟩
  · rw [rewrites'.annotations, rewrites.annotations, List.filter_append, List.filter_filter,
      List.filter_eq_self.2 fun t ht => stay ht, List.append_assoc]
    congr 1
    exact List.filter_congr fun t _ => Bool.and_comm _ _
  · have none : written.countP (fun t => !kept' t) = 0 :=
      List.countP_eq_zero.2 fun t ht => by rw [stay ht]; exact Bool.false_ne_true
    show count.removed + count'.removed = _
    rw [rewrites.removed, rewrites'.removed, rewrites.annotations, List.countP_append, none,
      List.countP_filter, List.countP_eq_countP_filter_add before.annotations
        (fun t => !(kept t && kept' t)) kept, List.countP_filter, List.countP_filter, Nat.add_comm]
    congr 1
    · exact List.countP_congr fun t _ => by cases kept t <;> simp
    · exact List.countP_congr fun t _ => by cases kept t <;> simp
  · rw [TroubleCount.add, rewrites.added, rewrites'.added, List.length_append]
  · intro t ht spared
    rw [not_or] at spared
    have here := rewrites.spares ht spared.1
    rw [here, rewrites'.spares (rewrites.mem.2 (.inl ⟨ht, here⟩)) spared.2, Bool.and_self]
  · intro t ht
    rcases List.mem_append.1 ht with ht | ht
    · exact ⟨.inl (rewrites.fresh ht).1, (rewrites.fresh ht).2⟩
    · exact ⟨.inr (rewrites'.fresh ht).1, Nat.le_trans first.nextId (rewrites'.fresh ht).2⟩
  · rintro id (here | here) held
    · have spared := later.troublesOf (apart id here)
      obtain ⟨once, covers⟩ := first.annotated here held
      rw [← spared] at once covers
      exact ⟨once, covers⟩
    · exact later.annotated here ((holds_congr first.absences id).trans held)
  · intro t ht wants lowest
    apply later.keeps (first.keeps ht wants lowest) wants
    intro u hu same
    obtain ⟨hu, on⟩ := List.mem_filter.1 hu
    rcases rewrites.mem.1 hu with ⟨old, -⟩ | new
    · exact lowest u (List.mem_filter.2 ⟨old, on⟩) same
    · exact Nat.le_of_lt (Nat.lt_of_lt_of_le (tagged.id_lt ht) (rewrites.fresh new).2)

end Reconciles

/-- Reconciling a record passes it by, if it was removed or is not there; or else deletes what is stale on it
and annotates what is missing. -/
theorem reconcileRecord_cases {ledger after : Ledger} {removed : OrderedSet AbsenceId}
    {wanted : OrderedSet Problem} {absence : AbsenceId} {count : TroubleCount}
    (h : reconcileRecord removed wanted absence ledger = .ok count after) :
    ((removed.contains absence = true ∨ ledger.holds absence = false) ∧ after = ledger ∧ count = .zero) ∨
      (removed.contains absence = false ∧ ledger.holds absence = true ∧ ∃ stale missing,
        stale = (splitTroubles wanted ∅ (ledger.troublesOf absence)).2 ∧
        missing = (wanted.filter fun problem =>
          !(splitTroubles wanted ∅ (ledger.troublesOf absence)).1.contains problem).toList ∧
        annotateAll absence missing (ledger.removeTroubles stale).2 = .ok () after ∧
        count = ⟨missing.length, (ledger.removeTroubles stale).1⟩) := by
  unfold reconcileRecord at h
  split at h
  · next passed =>
    cases h
    rw [Bool.or_eq_true, Bool.not_eq_true'] at passed
    exact .inl ⟨passed, rfl, rfl⟩
  · next here =>
    rw [Bool.or_eq_true, not_or, Bool.not_eq_true', Bool.not_eq_false, Bool.not_eq_true] at here
    dsimp only at h
    split at h
    · cases h
    · cases h
    · next annotated =>
      cases h
      exact .inr ⟨here.1, here.2, _, _, rfl, rfl, annotated, rfl⟩

/-- A record that keeps what is not stale and gets what is missing has the wanted problems, each once. -/
theorem annotated_of_split {before between after : Ledger} (tagged : before.Tagged)
    {wanted : OrderedSet Problem} {absence : AbsenceId} {written : List Trouble}
    (left : between.troublesOf absence = (before.troublesOf absence).filter fun t =>
      t.id ∉ (splitTroubles wanted ∅ (before.troublesOf absence)).2)
    (here : after.troublesOf absence = between.troublesOf absence ++ written)
    (named : written.map (·.problem) = (wanted.filter fun problem =>
      !(splitTroubles wanted ∅ (before.troublesOf absence)).1.contains problem).toList) :
    after.Annotated absence wanted := by
  obtain ⟨once, sound, -⟩ := splitTroubles_left (tagged.distinct absence) left
  have lacking {p : Problem} : p ∈ written.map (·.problem) ↔
      p ∈ wanted ∧ p ∉ (between.troublesOf absence).map (·.problem) := by
    rw [named]
    exact mem_missing (tagged.distinct absence) left
  constructor
  · rw [here, List.map_append]
    refine List.nodup_append.2 ⟨once, named ▸ nodup_toList _, fun p hp q hq same => ?_⟩
    exact (lacking.1 hq).2 (same ▸ hp)
  · intro p
    rw [here, List.map_append, List.mem_append, lacking]
    constructor
    · rintro (kept | new)
      · exact (sound p kept).1
      · exact new.1
    · intro wants
      by_cases kept : p ∈ (between.troublesOf absence).map (·.problem)
      · exact .inl kept
      · exact .inr ⟨wants, kept⟩

/-- Reconciling one record. -/
theorem reconcileRecord_ok {ledger after : Ledger} (tagged : ledger.Tagged)
    {removed : OrderedSet AbsenceId} {wanted : AbsenceId → OrderedSet Problem} {absence : AbsenceId}
    {count : TroubleCount} (h : reconcileRecord removed (wanted absence) absence ledger = .ok count after) :
    Reconciles (fun id => id = absence ∧ removed.contains id = false) wanted ledger after count := by
  rcases reconcileRecord_cases h with
    ⟨passed, rfl, rfl⟩ | ⟨stays, -, stale, missing, hstale, hmissing, annotated, rfl⟩
  · apply Reconciles.nothing tagged
    rintro _ ⟨rfl, stays⟩
    apply passed.resolve_left
    rw [stays]
    exact Bool.false_ne_true
  · obtain ⟨tagged', absences, nextId, left, deleted⟩ := removeTroubles_ok tagged stale
    generalize ledger.removeTroubles stale = between at *
    obtain ⟨written, tagged'', absences', nextId', troubles, named, fresh⟩ := annotateAll_ok tagged' annotated
    have own {t : Trouble} (ht : t ∈ ledger.annotations) (gone : t.id ∈ stale) : t.absence = absence := by
      obtain ⟨u, hu, same⟩ := mem_of_stale (hstale ▸ gone)
      have mine : t ∈ ledger.troublesOf t.absence := List.mem_filter.2 ⟨ht, decide_eq_true rfl⟩
      rw [← tagged.eq_of_id hu mine same]
      exact (mem_troublesOf.1 hu).2
    refine ⟨tagged'', absences'.trans absences, nextId ▸ nextId',
      ⟨fun t => t.id ∉ stale, written, ?_, ?_, ?_, ?_, ?_⟩, ?_, ?_⟩
    · rw [troubles, left]
    · rw [deleted]
      exact List.countP_congr fun t _ => by simp
    · rw [← named, List.length_map]
    · intro t ht spared
      exact decide_eq_true fun gone => spared ⟨own ht gone, own ht gone ▸ stays⟩
    · intro t ht
      obtain ⟨placed, new⟩ := fresh t ht
      exact ⟨⟨placed, placed ▸ stays⟩, nextId ▸ new⟩
    · rintro id ⟨rfl, -⟩ -
      have mine : between.2.troublesOf id = (ledger.troublesOf id).filter fun t => t.id ∉ stale := by
        rw [troublesOf_eq, left, List.filter_comm, troublesOf_eq]
      have here : after.troublesOf id = between.2.troublesOf id ++ written := by
        rw [troublesOf_eq, troubles, List.filter_append, troublesOf_eq]
        congr 1
        exact List.filter_eq_self.2 fun t ht => decide_eq_true (fresh t ht).1
      exact annotated_of_split tagged (hstale ▸ mine) here (named.trans hmissing)
    · intro t ht wants lowest
      rw [troubles, left]
      refine List.mem_append_left _ (List.mem_filter.2 ⟨ht, decide_eq_true fun gone => ?_⟩)
      have mine : t ∈ ledger.troublesOf t.absence := List.mem_filter.2 ⟨ht, decide_eq_true rfl⟩
      have on := own ht gone
      rw [hstale, ← on] at gone
      exact splitTroubles_first (tagged.ascending.filter _) mine wants OrderedSet.mem_empty lowest gone

/-- Reconciling several records, each once. -/
theorem reconcile_ok {removed : OrderedSet AbsenceId} {findings : Findings} {ids : List AbsenceId}
    (once : ids.Nodup) {ledger after : Ledger} (tagged : ledger.Tagged) {count : TroubleCount}
    (h : reconcile removed findings ids ledger = .ok count after) :
    Reconciles (fun id => id ∈ ids ∧ removed.contains id = false) findings.problemsOf ledger after
      count := by
  induction ids generalizing ledger count with
  | nil =>
    cases h
    exact Reconciles.nothing tagged fun id here => absurd here.1 List.not_mem_nil
  | cons first rest ih =>
    obtain ⟨own, between, here, h⟩ := LedgerAction.bind_ok h
    obtain ⟨others, last, later, h⟩ := LedgerAction.bind_ok h
    cases h
    obtain ⟨ahead, behind⟩ := List.nodup_cons.1 once
    have here := reconcileRecord_ok tagged here
    have all := here.trans tagged (ih behind here.tagged later) fun id mine there =>
      ahead (mine.1 ▸ there.1)
    simpa only [List.mem_cons, or_and_right] using all

/-- A record whose annotations are those that are wanted is reconciled without a write. -/
theorem reconcileRecord_annotated {ledger : Ledger} (tagged : ledger.Tagged) {absence : AbsenceId}
    {wanted : OrderedSet Problem} (annotated : ledger.Annotated absence wanted)
    (removed : OrderedSet AbsenceId) :
    reconcileRecord removed wanted absence ledger = .ok .zero ledger := by
  have stale : (splitTroubles wanted ∅ (ledger.troublesOf absence)).2 = [] :=
    splitTroubles_none annotated.once fun p hp => ⟨(annotated.covers p).1 hp, OrderedSet.mem_empty⟩
  have whole : ledger.troublesOf absence = (ledger.troublesOf absence).filter fun t =>
      t.id ∉ (splitTroubles wanted ∅ (ledger.troublesOf absence)).2 := by
    rw [stale]
    exact (List.filter_eq_self.2 fun t _ => by simp).symm
  have missing : (wanted.filter fun p =>
      !(splitTroubles wanted ∅ (ledger.troublesOf absence)).1.contains p).toList = [] := by
    apply List.eq_nil_iff_forall_not_mem.2
    intro p hp
    obtain ⟨wants, lacks⟩ := (mem_missing (tagged.distinct absence) whole).1 hp
    exact lacks ((annotated.covers p).2 wants)
  unfold reconcileRecord
  split
  · rfl
  · simp only [stale, missing]
    rfl

/-- Records whose annotations are those of their problems are reconciled without a write. -/
theorem reconcile_annotated {ledger : Ledger} (tagged : ledger.Tagged) {findings : Findings}
    {ids : List AbsenceId} (annotated : ∀ id ∈ ids, ledger.Annotated id (findings.problemsOf id))
    (removed : OrderedSet AbsenceId) : reconcile removed findings ids ledger = .ok .zero ledger := by
  induction ids with
  | nil => rfl
  | cons id rest ih =>
    have first := reconcileRecord_annotated tagged (annotated id List.mem_cons_self) removed
    have later := ih fun id hid => annotated id (List.mem_cons_of_mem _ hid)
    exact (LedgerAction.bind_of_ok first).trans (LedgerAction.bind_of_ok later)

end Ledger

end Entitlement
