import Mathlib.Data.List.Nodup
import Mathlib.Data.List.TakeWhile
import Entitlement.Scan.Agenda

/-!
What is pending in an agenda. It begins with every record and all its categories; the next pair is
pending; and a pair that stops being pending has been struck off.
-/

namespace Entitlement

namespace OrderedMap

variable {κ ν : Type} [Ordered κ] [DecidableEq κ]

theorem get?_adjust {m : OrderedMap κ ν} {k k' : κ} {f : ν → ν} :
    (m.adjust k f).get? k' = if k' = k then (m.get? k').map f else m.get? k' := by
  apply Option.ext
  intro w
  rw [get?_eq_some_iff, adjust, List.mem_map]
  split
  · next same =>
    subst same
    simp only [Option.map_eq_some_iff, get?_eq_some_iff]
    constructor
    · rintro ⟨⟨key, v⟩, mem, entry⟩
      split at entry
      · next here =>
        obtain ⟨rfl, rfl⟩ := Prod.mk.inj entry
        exact ⟨v, mem, rfl⟩
      · next other =>
        obtain ⟨rfl, rfl⟩ := Prod.mk.inj entry
        exact absurd rfl other
    · rintro ⟨v, mem, rfl⟩
      exact ⟨(k', v), mem, by rw [if_pos rfl]⟩
  · next other =>
    rw [get?_eq_some_iff]
    constructor
    · rintro ⟨⟨key, v⟩, mem, entry⟩
      split at entry
      · next here =>
        obtain ⟨rfl, rfl⟩ := Prod.mk.inj entry
        exact absurd here other
      · obtain ⟨rfl, rfl⟩ := Prod.mk.inj entry
        exact mem
    · intro mem
      exact ⟨(k', w), mem, by rw [if_neg other]⟩

end OrderedMap

theorem OrderedSet.head?_eq_none_iff {α : Type} [Ordered α] {s : OrderedSet α} :
    s.toList.head? = none ↔ ∀ a, a ∉ s := by
  rw [List.head?_eq_none_iff, List.eq_nil_iff_forall_not_mem]
  rfl

/-- Dropping what a search passes over anyway does not change what it finds first. -/
theorem head?_dropWhile_bind {α β : Type} {f : α → Option β} {skip : α → Bool}
    (skips : ∀ a, skip a = true ↔ f a = none) (l : List α) :
    (l.dropWhile skip).head?.bind f = l.findSome? f := by
  induction l with
  | nil => rfl
  | cons a rest ih =>
    cases found : f a with
    | none =>
      rw [List.dropWhile_cons_of_pos ((skips a).2 found), List.findSome?_cons_of_isNone (by simp [found]), ih]
    | some b =>
      have stays : skip a ≠ true := fun skipped => by simp [(skips a).1 skipped] at found
      rw [List.dropWhile_cons_of_neg stays, List.findSome?_cons_of_isSome (by simp [found])]
      rfl

namespace Agenda

theorem mem_strike {agenda : Agenda} {id id' : AbsenceId} {name name' : CategoryName} :
    name' ∈ (agenda.strike id name).pendingFor id' ↔
      name' ∈ agenda.pendingFor id' ∧ ¬ (id' = id ∧ name' = name) := by
  simp only [pendingFor, strike, OrderedMap.get?_adjust]
  by_cases same : id' = id
  · rw [if_pos same]
    cases agenda.pending.get? id' with
    | none => simp
    | some names => simp [same]
  · rw [if_neg same]
    simp [same]

theorem mem_strikePairs {agenda : Agenda} {pairs : List (AbsenceId × CategoryName)} {id : AbsenceId}
    {name : CategoryName} : name ∈ (agenda.strikePairs pairs).pendingFor id ↔
      name ∈ agenda.pendingFor id ∧ (id, name) ∉ pairs := by
  induction pairs generalizing agenda with
  | nil => simp [strikePairs]
  | cons p rest ih =>
    rw [strikePairs, List.foldl_cons]
    apply ih.trans
    rw [mem_strike, List.mem_cons, not_or, Prod.ext_iff, and_assoc]

theorem mem_strikeAll {agenda : Agenda} {id id' : AbsenceId} {name : CategoryName} :
    name ∈ (agenda.strikeAll id').pendingFor id ↔ name ∈ agenda.pendingFor id ∧ id ≠ id' := by
  simp only [pendingFor, strikeAll, OrderedMap.get?_adjust]
  by_cases same : id = id'
  · rw [if_pos same]
    cases agenda.pending.get? id with
    | none => simp [same]
    | some names => simp [same]
  · rw [if_neg same]
    exact (and_iff_left same).symm

@[simp] theorem rest_strikeAll (agenda : Agenda) (id : AbsenceId) :
    (agenda.strikeAll id).rest = agenda.rest := rfl

@[simp] theorem rest_strikePairs (agenda : Agenda) (pairs : List (AbsenceId × CategoryName)) :
    (agenda.strikePairs pairs).rest = agenda.rest := by
  induction pairs generalizing agenda with
  | nil => rfl
  | cons p rest ih => exact ih (agenda.strike p.1 p.2)

theorem mem_rest_advance {agenda : Agenda} {a : Absence} (h : a ∈ agenda.rest) {name : CategoryName}
    (pending : name ∈ agenda.pendingFor a.id) : a ∈ agenda.advance.rest := by
  rw [← List.takeWhile_append_dropWhile (p := fun a => (agenda.pendingFor a.id).isEmpty)
    (l := agenda.rest), List.mem_append] at h
  apply h.resolve_left
  intro dropped
  have done := List.mem_takeWhile_imp dropped
  rw [OrderedSet.isEmpty, List.isEmpty_iff] at done
  rw [OrderedSet.mem_def, done] at pending
  exact absurd pending List.not_mem_nil

theorem mem_rest_of_advance {agenda : Agenda} {a : Absence} (h : a ∈ agenda.advance.rest) :
    a ∈ agenda.rest :=
  (List.dropWhile_sublist _).subset h

/-- The next pair is pending, and stands among the records that are left. -/
theorem nextPair_some {agenda next : Agenda} {record : Absence} {name : CategoryName}
    (h : agenda.nextPair = (some (record, name), next)) : next = agenda.advance ∧
      record ∈ agenda.rest ∧ name ∈ agenda.pendingFor record.id := by
  obtain ⟨front, rfl⟩ := Prod.mk.inj h
  simp only [front?, Option.bind_eq_some_iff, Option.map_eq_some_iff, Prod.mk.injEq] at front
  obtain ⟨r, head, n, first, rfl, rfl⟩ := front
  exact ⟨rfl, mem_rest_of_advance (List.mem_of_head? head), List.mem_of_head? first⟩

def firstPending (agenda : Agenda) (a : Absence) : Option (Absence × CategoryName) :=
  (agenda.pendingFor a.id).toList.head?.map fun name => (a, name)

theorem firstPending_eq_none_iff {agenda : Agenda} {a : Absence} :
    agenda.firstPending a = none ↔ ∀ name, name ∉ agenda.pendingFor a.id := by
  rw [firstPending, Option.map_eq_none_iff, OrderedSet.head?_eq_none_iff]

/-- The next pair is what a search through the records that are left finds. -/
theorem nextPair_eq (agenda : Agenda) : agenda.nextPair.1 = agenda.rest.findSome? agenda.firstPending := by
  have skips (a : Absence) : (agenda.pendingFor a.id).isEmpty = true ↔ agenda.firstPending a = none := by
    rw [firstPending, Option.map_eq_none_iff, List.head?_eq_none_iff]
    exact List.isEmpty_iff
  exact head?_dropWhile_bind skips agenda.rest

/-- Without a next pair nothing is pending. -/
theorem nextPair_none {agenda next : Agenda} (h : agenda.nextPair = (none, next)) {a : Absence}
    (ha : a ∈ agenda.rest) (name : CategoryName) : name ∉ agenda.pendingFor a.id := by
  have nothing : agenda.rest.findSome? agenda.firstPending = none := by rw [← nextPair_eq, h]
  exact firstPending_eq_none_iff.1 (List.findSome?_eq_none_iff.1 nothing a ha) name

structure Filed (rules : RuleTree) (settings : ScanSettings) (source : List Absence)
    (agenda : Agenda) : Prop where
  rest : agenda.rest = agenda.records
  origin {a : Absence} : a ∈ agenda.records → a ∈ source
  holds {a : Absence} : a ∈ source → ∃ b ∈ agenda.records, b.id = a.id
  once : (agenda.records.map (·.id)).Nodup
  pending {a : Absence} : a ∈ agenda.records →
    agenda.pendingFor a.id = categoriesOf rules settings a

theorem Filed.distinct {rules : RuleTree} {settings : ScanSettings} {source : List Absence}
    {agenda : Agenda} (filed : Filed rules settings source agenda) {a b : Absence}
    (ha : a ∈ agenda.records) (hb : b ∈ agenda.records) (same : a.id = b.id) : a = b :=
  List.inj_on_of_nodup_map filed.once ha hb same

theorem contains_iff {agenda : Agenda} {id : AbsenceId} :
    agenda.contains id = true ↔ ∃ a ∈ agenda.records, a.id = id := by
  simp [contains]

theorem Filed.push {rules : RuleTree} {settings : ScanSettings} {source : List Absence}
    {agenda : Agenda} (filed : Filed rules settings source agenda) (record : Absence) :
    Filed rules settings (source ++ [record]) (push rules settings agenda record) := by
  unfold Agenda.push
  split
  · next old =>
    refine ⟨filed.rest, fun ha => List.mem_append_left _ (filed.origin ha), fun ha => ?_,
      filed.once, filed.pending⟩
    rcases List.mem_append.1 ha with before | new
    · exact filed.holds before
    · rw [List.mem_singleton.1 new]
      exact contains_iff.1 old
  · next new =>
    have other {a : Absence} (ha : a ∈ agenda.records) : a.id ≠ record.id :=
      fun same => new (contains_iff.2 ⟨a, ha, same⟩)
    refine ⟨by rw [filed.rest], fun ha => ?_, fun ha => ?_, ?_, fun ha => ?_⟩
    · rcases List.mem_append.1 ha with before | last
      · exact List.mem_append_left _ (filed.origin before)
      · exact List.mem_append_right _ last
    · rcases List.mem_append.1 ha with before | last
      · obtain ⟨b, hb, same⟩ := filed.holds before
        exact ⟨b, List.mem_append_left _ hb, same⟩
      · exact ⟨record, List.mem_append_right _ List.mem_cons_self, by rw [List.mem_singleton.1 last]⟩
    · rw [List.map_append]
      refine List.nodup_append.2 ⟨filed.once, List.nodup_singleton _, fun id hid id' hid' => ?_⟩
      obtain ⟨a, ha, rfl⟩ := List.mem_map.1 hid
      rw [List.map_singleton, List.mem_singleton] at hid'
      exact hid' ▸ other ha
    · simp only [pendingFor, OrderedMap.get?_insert]
      rcases List.mem_append.1 ha with before | last
      · rw [if_neg (other before)]
        exact filed.pending before
      · rw [List.mem_singleton.1 last, if_pos rfl, Option.getD_some]

theorem filed_ofRecords (rules : RuleTree) (settings : ScanSettings) (records : List Absence) :
    Filed rules settings records (ofRecords rules settings records) := by
  have fold (l source : List Absence) (agenda : Agenda) (filed : Filed rules settings source agenda) :
      Filed rules settings (source ++ l) (l.foldl (Agenda.push rules settings) agenda) := by
    induction l generalizing source agenda with
    | nil => rwa [List.append_nil]
    | cons a rest ih =>
      have := ih (source ++ [a]) _ (filed.push a)
      rwa [List.append_assoc, List.singleton_append] at this
  refine fold records [] empty ⟨rfl, fun ha => ha, fun ha => ?_, List.nodup_nil, fun ha => ?_⟩
  · exact absurd ha List.not_mem_nil
  · exact absurd ha List.not_mem_nil

/-- The categories a record is checked against: those its code is filed under, but for excluded ones. -/
theorem mem_categoriesOf {rules : RuleTree} {settings : ScanSettings} {record : Absence}
    {name : CategoryName} : name ∈ categoriesOf rules settings record ↔
      ∃ c ∈ rules.categoriesFor record.code, settings.excludes c = false ∧ c.name = name := by
  simp only [categoriesOf, OrderedSet.mem_ofList, List.mem_map, List.mem_filter, Bool.not_eq_true',
    and_assoc]

end Agenda

end Entitlement
