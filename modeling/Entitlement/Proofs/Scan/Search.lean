import Entitlement.Proofs.Scan.Agenda

/-!
Any calls on the agenda of a scan, in any order, for identifiers and categories it knows or does not know. The
records dropped from its front have nothing pending and never will have again, so the next pair is what a search
of all records from the start would find; and a pair stays pending until it is struck off.
-/

namespace Entitlement

open Ordered

namespace OrderedSet

variable {α : Type} [Ordered α] {s : OrderedSet α} {a : α}

/-- The first member in the listing of a set is the least. -/
theorem head?_eq_some_iff : s.toList.head? = some a ↔ a ∈ s ∧ ∀ b ∈ s, b = a ∨ before a b = true := by
  simp only [mem_def]
  have ascending := s.ascending
  generalize s.toList = l at ascending
  cases l with
  | nil => simp
  | cons first rest =>
    have later := (List.pairwise_cons.1 ascending).1
    rw [List.head?_cons, Option.some.injEq]
    constructor
    · rintro rfl
      refine ⟨List.mem_cons_self, fun b hb => ?_⟩
      rcases List.mem_cons.1 hb with same | behind
      · exact .inl same
      · exact .inr (later b behind)
    · rintro ⟨mem, least⟩
      rcases List.mem_cons.1 mem with same | behind
      · exact same.symm
      · apply (least first List.mem_cons_self).resolve_right
        simp [asymm (later a behind)]

end OrderedSet

namespace Agenda

inductive Call where
  | next
  | strike (id : AbsenceId) (name : CategoryName)
  | strikeAll (id : AbsenceId)

def Call.run : Call → Agenda → Agenda
  | .next, agenda => agenda.nextPair.2
  | .strike id name, agenda => agenda.strike id name
  | .strikeAll id, agenda => agenda.strikeAll id

def Call.Strikes : Call → AbsenceId → CategoryName → Prop
  | .next, _, _ => False
  | .strike id name, id', name' => id' = id ∧ name' = name
  | .strikeAll id, id', _ => id' = id

def after (agenda : Agenda) (calls : List Call) : Agenda :=
  calls.foldl (fun agenda call => call.run agenda) agenda

variable {agenda : Agenda} {id : AbsenceId} {name : CategoryName}

theorem isPending_iff : agenda.isPending id name = true ↔ name ∈ agenda.pendingFor id :=
  OrderedSet.contains_iff

theorem mem_run {call : Call} :
    name ∈ (call.run agenda).pendingFor id ↔ name ∈ agenda.pendingFor id ∧ ¬ call.Strikes id name := by
  cases call with
  | next => exact (and_iff_left not_false).symm
  | strike id' name' => exact mem_strike
  | strikeAll id' => exact mem_strikeAll

/-- A pair stays pending until a call strikes it off. -/
theorem mem_after {calls : List Call} : name ∈ (agenda.after calls).pendingFor id ↔
    name ∈ agenda.pendingFor id ∧ ∀ call ∈ calls, ¬ call.Strikes id name := by
  induction calls generalizing agenda with
  | nil => simp [after]
  | cons call rest ih =>
    have step : agenda.after (call :: rest) = (call.run agenda).after rest := rfl
    rw [step, ih, mem_run, List.forall_mem_cons, and_assoc]

theorem records_run (call : Call) : (call.run agenda).records = agenda.records := by
  cases call <;> rfl

theorem records_after (calls : List Call) : (agenda.after calls).records = agenda.records := by
  induction calls generalizing agenda with
  | nil => rfl
  | cons call rest ih => exact ih.trans (records_run call)

/-- The records that are not left any more have nothing pending. -/
def Drained (agenda : Agenda) : Prop :=
  ∃ dropped, agenda.records = dropped ++ agenda.rest ∧ ∀ a ∈ dropped, ∀ name, name ∉ agenda.pendingFor a.id

/-- What is drained stays drained while records are dropped whose categories are done, and pairs struck off. -/
theorem Drained.run (drained : agenda.Drained) (call : Call) : (call.run agenda).Drained := by
  obtain ⟨dropped, split, done⟩ := drained
  have still : ∀ a ∈ dropped, ∀ name, name ∉ (call.run agenda).pendingFor a.id :=
    fun a ha name pending => done a ha name (mem_run.1 pending).1
  cases call with
  | next =>
    let passed := agenda.rest.takeWhile fun a => (agenda.pendingFor a.id).isEmpty
    refine ⟨dropped ++ passed, ?_, fun a ha => ?_⟩
    · show agenda.records = (dropped ++ passed) ++ agenda.rest.dropWhile _
      rw [List.append_assoc, List.takeWhile_append_dropWhile, split]
    · rcases List.mem_append.1 ha with before | now
      · exact still a before
      · have done := List.mem_takeWhile_imp (p := fun a : Absence => (agenda.pendingFor a.id).isEmpty) now
        exact OrderedSet.head?_eq_none_iff.1 (List.head?_eq_none_iff.2 (List.isEmpty_iff.1 done))
  | strike id name => exact ⟨dropped, split, still⟩
  | strikeAll id => exact ⟨dropped, split, still⟩

theorem Drained.after (drained : agenda.Drained) (calls : List Call) : (agenda.after calls).Drained := by
  induction calls generalizing agenda with
  | nil => exact drained
  | cons call rest ih => exact ih (drained.run call)

/-- Searches all records, in the order of their arrival, for one that has something pending. -/
def search (agenda : Agenda) : Option (Absence × CategoryName) :=
  agenda.records.findSome? agenda.firstPending

theorem firstPending_eq_some_iff {a record : Absence} :
    agenda.firstPending a = some (record, name) ↔ a = record ∧ name ∈ agenda.pendingFor a.id ∧
      ∀ other ∈ agenda.pendingFor a.id, other = name ∨ before name other = true := by
  simp only [firstPending, Option.map_eq_some_iff, Prod.mk.injEq, OrderedSet.head?_eq_some_iff]
  constructor
  · rintro ⟨found, least, rfl, rfl⟩
    exact ⟨rfl, least⟩
  · rintro ⟨rfl, least⟩
    exact ⟨name, least, rfl, rfl⟩

/-- The next pair is what a search from the start finds. -/
theorem Drained.nextPair_eq_search (drained : agenda.Drained) : agenda.nextPair.1 = agenda.search := by
  obtain ⟨dropped, split, done⟩ := drained
  have passed : dropped.findSome? agenda.firstPending = none :=
    List.findSome?_eq_none_iff.2 fun a ha => firstPending_eq_none_iff.2 (done a ha)
  rw [Agenda.nextPair_eq, search, split, List.findSome?_append, passed, Option.none_or]

/-- The search finds the first record with something pending, and its least pending category. -/
theorem search_eq_some_iff {record : Absence} : agenda.search = some (record, name) ↔
    ∃ earlier later, agenda.records = earlier ++ record :: later ∧
      (∀ a ∈ earlier, ∀ other, other ∉ agenda.pendingFor a.id) ∧ name ∈ agenda.pendingFor record.id ∧
      ∀ other ∈ agenda.pendingFor record.id, other = name ∨ before name other = true := by
  rw [search, List.findSome?_eq_some_iff]
  simp only [firstPending_eq_some_iff, firstPending_eq_none_iff]
  constructor
  · rintro ⟨earlier, a, later, split, ⟨rfl, pending, least⟩, passed⟩
    exact ⟨earlier, later, split, passed, pending, least⟩
  · rintro ⟨earlier, later, split, passed, pending, least⟩
    exact ⟨earlier, record, later, split, ⟨rfl, pending, least⟩, passed⟩

theorem search_eq_none_iff :
    agenda.search = none ↔ ∀ a ∈ agenda.records, ∀ name, name ∉ agenda.pendingFor a.id := by
  rw [search, List.findSome?_eq_none_iff]
  simp only [firstPending_eq_none_iff]

/-- The first record of each identifier, in the order of arrival. -/
def arrivals : List Absence → List Absence
  | [] => []
  | a :: rest => a :: (arrivals rest).filter fun b => b.id ≠ a.id

theorem contains_push (rules : RuleTree) (settings : ScanSettings) (agenda : Agenda) (record : Absence)
    (id : AbsenceId) : (push rules settings agenda record).contains id =
      (agenda.contains id || decide (record.id = id)) := by
  unfold push
  split
  · next old =>
    by_cases same : record.id = id
    · rw [← same, old, Bool.true_or]
    · rw [decide_eq_false same, Bool.or_false]
  · simp [contains]

/-- The records of an agenda are those that arrive first under their identifiers. -/
theorem records_ofRecords (rules : RuleTree) (settings : ScanSettings) (source : List Absence) :
    (ofRecords rules settings source).records = arrivals source := by
  have fold (l : List Absence) (agenda : Agenda) : (l.foldl (push rules settings) agenda).records =
      agenda.records ++ (arrivals l).filter fun a => !agenda.contains a.id := by
    induction l generalizing agenda with
    | nil => simp [arrivals]
    | cons a rest ih =>
      have new : (arrivals rest).filter (fun b => !(push rules settings agenda a).contains b.id) =
          ((arrivals rest).filter fun b => b.id ≠ a.id).filter fun b => !agenda.contains b.id := by
        rw [List.filter_filter]
        exact List.filter_congr fun b _ => by simp [contains_push, eq_comm]
      rw [List.foldl_cons, ih, new, arrivals, List.filter_cons]
      cases old : agenda.contains a.id with
      | true =>
        have same : push rules settings agenda a = agenda := by rw [push, if_pos old]
        rw [same]
        rfl
      | false =>
        have added : (push rules settings agenda a).records = agenda.records ++ [a] := by
          rw [push, if_neg (by simp [old])]
        rw [added, List.append_assoc]
        rfl
  have all := fold source empty
  simpa [ofRecords, empty, contains] using all

/-- Nothing is pending under an identifier that has not arrived. -/
theorem mem_records_of_pending {rules : RuleTree} {settings : ScanSettings} {source : List Absence}
    (pending : name ∈ (ofRecords rules settings source).pendingFor id) :
    (ofRecords rules settings source).contains id = true := by
  have fold (l : List Absence) (agenda : Agenda)
      (known : ∀ id name, name ∈ agenda.pendingFor id → agenda.contains id = true) :
      ∀ id name, name ∈ (l.foldl (push rules settings) agenda).pendingFor id →
        (l.foldl (push rules settings) agenda).contains id = true := by
    induction l generalizing agenda with
    | nil => exact known
    | cons a rest ih =>
      refine ih _ fun id name pending => ?_
      rw [contains_push, Bool.or_eq_true, decide_eq_true_eq]
      by_cases here : a.id = id
      · exact .inr here
      · refine .inl (known id name ?_)
        unfold push at pending
        split at pending
        · exact pending
        · simpa only [pendingFor, OrderedMap.get?_insert, if_neg (Ne.symm here)] using pending
  exact fold source empty (fun id name pending => absurd pending OrderedSet.mem_empty) id name pending

/-- Pending at first are the records that have arrived with all categories of their codes that are not excluded. -/
theorem mem_ofRecords {rules : RuleTree} {settings : ScanSettings} {source : List Absence} :
    name ∈ (ofRecords rules settings source).pendingFor id ↔
      ∃ a ∈ arrivals source, a.id = id ∧
        ∃ c ∈ rules.categoriesFor a.code, settings.excludes c = false ∧ c.name = name := by
  have filed := filed_ofRecords rules settings source
  rw [← records_ofRecords rules settings]
  constructor
  · intro pending
    obtain ⟨a, ha, rfl⟩ := contains_iff.1 (mem_records_of_pending pending)
    rw [filed.pending ha] at pending
    exact ⟨a, ha, rfl, mem_categoriesOf.1 pending⟩
  · rintro ⟨a, ha, rfl, listed⟩
    rw [filed.pending ha]
    exact mem_categoriesOf.2 listed

theorem drained_ofRecords (rules : RuleTree) (settings : ScanSettings) (source : List Absence) :
    (ofRecords rules settings source).Drained := by
  refine ⟨[], ?_, fun a ha => absurd ha List.not_mem_nil⟩
  rw [(filed_ofRecords rules settings source).rest, List.nil_append]

/-- What an agenda that was filled with some records tells after some calls. The next pair is what a search from
the start finds, which is the first record to arrive with something pending and its least pending category.
Pending are the pairs of these records and the categories of their codes that are not excluded, but for those that
a call has struck off; these are neither pending nor the next pair any more, and no call makes a pair pending. Which
records there are, and in which order, never changes. -/
structure Tells (rules : RuleTree) (settings : ScanSettings) (source : List Absence) (calls : List Call)
    (agenda : Agenda) : Prop where
  next : agenda.nextPair.1 = agenda.search
  found {record : Absence} {name : CategoryName} : agenda.nextPair.1 = some (record, name) ↔
    ∃ earlier later, arrivals source = earlier ++ record :: later ∧
      (∀ a ∈ earlier, ∀ other, ¬ agenda.isPending a.id other = true) ∧
      agenda.isPending record.id name = true ∧
      ∀ other, agenda.isPending record.id other = true → other = name ∨ before name other = true
  finished : agenda.nextPair.1 = none ↔
    ∀ a ∈ arrivals source, ∀ name, ¬ agenda.isPending a.id name = true
  pending {id : AbsenceId} {name : CategoryName} : agenda.isPending id name = true ↔
    (∃ a ∈ arrivals source, a.id = id ∧
      ∃ c ∈ rules.categoriesFor a.code, settings.excludes c = false ∧ c.name = name) ∧
    ∀ call ∈ calls, ¬ call.Strikes id name
  struck {id : AbsenceId} {name : CategoryName} {call : Call} : call ∈ calls → call.Strikes id name →
    ¬ agenda.isPending id name = true ∧
      ∀ record : Absence, record.id = id → agenda.nextPair.1 ≠ some (record, name)
  fewer {id : AbsenceId} {name : CategoryName} (more : List Call) :
    (agenda.after more).isPending id name = true → agenda.isPending id name = true
  order : agenda.records = arrivals source
  size : agenda.size = (arrivals source).length
  contains {id : AbsenceId} : agenda.contains id = true ↔ ∃ a ∈ source, a.id = id

/-- Whatever calls are made on an agenda, it loses no pair that is pending and tells the next one in order. -/
theorem after_tells (rules : RuleTree) (settings : ScanSettings) (source : List Absence) (calls : List Call) :
    Tells rules settings source calls ((ofRecords rules settings source).after calls) := by
  have filed := filed_ofRecords rules settings source
  have order : ((ofRecords rules settings source).after calls).records = arrivals source :=
    (records_after calls).trans (records_ofRecords rules settings source)
  have next := ((drained_ofRecords rules settings source).after calls).nextPair_eq_search
  have struck {id : AbsenceId} {name : CategoryName} {call : Call} (made : call ∈ calls)
      (strikes : call.Strikes id name) :
      ¬ ((ofRecords rules settings source).after calls).isPending id name = true :=
    fun left => (mem_after.1 (isPending_iff.1 left)).2 call made strikes
  exact {
    next := next
    found := by
      intro record name
      rw [next, search_eq_some_iff, order]
      simp only [isPending_iff]
    finished := by
      rw [next, search_eq_none_iff, order]
      simp only [isPending_iff]
    pending := isPending_iff.trans (mem_after.trans (and_congr_left' mem_ofRecords))
    struck := fun made strikes => by
      refine ⟨struck made strikes, fun record named told => ?_⟩
      obtain ⟨-, -, pending⟩ := nextPair_some (Prod.ext told rfl)
      exact struck made strikes (isPending_iff.2 (named ▸ pending))
    fewer := fun more left => isPending_iff.2 (mem_after.1 (isPending_iff.1 left)).1
    order := order
    size := congrArg List.length order
    contains := by
      intro id
      rw [contains_iff, records_after]
      constructor
      · rintro ⟨a, ha, named⟩
        exact ⟨a, filed.origin ha, named⟩
      · rintro ⟨a, ha, rfl⟩
        exact filed.holds ha }

end Agenda

end Entitlement
