import Entitlement.Ordered.Map
import Entitlement.Rule.Tree
import Entitlement.Scan.Settings

/-!
The agenda of a scan: its records in the order of arrival, each with the categories it has still to be
checked against. Records whose categories are done are dropped from the front for good, so the search
for the next one never starts over. The number of pending pairs falls with every pair taken.
-/

namespace Entitlement

structure Agenda where
  /-- The records by arrival, each identifier once. -/
  records : List Absence
  pending : OrderedMap AbsenceId (OrderedSet CategoryName)
  /-- The records from the first one on that may have something pending. -/
  rest : List Absence
deriving DecidableEq

namespace Agenda

def contains (agenda : Agenda) (absence : AbsenceId) : Bool :=
  agenda.records.any fun a => a.id = absence

def size (agenda : Agenda) : Nat :=
  agenda.records.length

/-- The categories a record has still to be checked against. -/
def pendingFor (agenda : Agenda) (absence : AbsenceId) : OrderedSet CategoryName :=
  (agenda.pending.get? absence).getD ∅

def isPending (agenda : Agenda) (absence : AbsenceId) (category : CategoryName) : Bool :=
  (agenda.pendingFor absence).contains category

/-- The categories a record is to be checked against. -/
def categoriesOf (rules : RuleTree) (settings : ScanSettings) (record : Absence) :
    OrderedSet CategoryName :=
  .ofList (((rules.categoriesFor record.code).filter fun c => !settings.excludes c).map (·.name))

def empty : Agenda := ⟨[], ∅, []⟩

/-- Adds a record at the end, unless its identifier is there. -/
def push (rules : RuleTree) (settings : ScanSettings) (agenda : Agenda) (record : Absence) :
    Agenda :=
  if agenda.contains record.id then agenda
  else
    ⟨agenda.records ++ [record],
      agenda.pending.insert record.id (categoriesOf rules settings record),
      agenda.rest ++ [record]⟩

def ofRecords (rules : RuleTree) (settings : ScanSettings) (records : List Absence) : Agenda :=
  records.foldl (push rules settings) empty

/-- Drops the records at the front that have nothing pending. -/
def advance (agenda : Agenda) : Agenda :=
  { agenda with rest := agenda.rest.dropWhile fun a => (agenda.pendingFor a.id).isEmpty }

/-- The first record with something pending and its first pending category. -/
def front? (agenda : Agenda) : Option (Absence × CategoryName) :=
  agenda.rest.head?.bind fun record =>
    (agenda.pendingFor record.id).toList.head?.map fun category => (record, category)

/-- Advances to the next pair and tells which it is. -/
def nextPair (agenda : Agenda) : Option (Absence × CategoryName) × Agenda :=
  (agenda.advance.front?, agenda.advance)

/-- Takes one category of a record off. -/
def strike (agenda : Agenda) (absence : AbsenceId) (category : CategoryName) : Agenda :=
  { agenda with pending := agenda.pending.adjust absence (·.erase category) }

/-- Takes every category of a record off. -/
def strikeAll (agenda : Agenda) (absence : AbsenceId) : Agenda :=
  { agenda with pending := agenda.pending.adjust absence fun _ => ∅ }

def strikePairs (agenda : Agenda) (pairs : List (AbsenceId × CategoryName)) : Agenda :=
  pairs.foldl (fun agenda p => agenda.strike p.1 p.2) agenda

/-- How many pairs of a record and a category are pending. -/
def pendingCount (agenda : Agenda) : Nat :=
  (agenda.pending.toList.flatMap fun e => e.2.toList).length

private theorem adjust_count_le {l : List (AbsenceId × OrderedSet CategoryName)} {k : AbsenceId}
    {f : OrderedSet CategoryName → OrderedSet CategoryName}
    (hf : ∀ s, (f s).toList.length ≤ s.toList.length) :
    ((l.map fun e => if e.1 = k then (e.1, f e.2) else e).flatMap fun e => e.2.toList).length ≤
      (l.flatMap fun e => e.2.toList).length := by
  induction l with
  | nil => simp
  | cons e rest ih =>
      have := hf e.2
      by_cases h : e.1 = k <;> simp [h] at ih ⊢ <;> omega

private theorem adjust_count_lt {l : List (AbsenceId × OrderedSet CategoryName)} {k : AbsenceId}
    {s : OrderedSet CategoryName} {f : OrderedSet CategoryName → OrderedSet CategoryName}
    (hf : ∀ s, (f s).toList.length ≤ s.toList.length)
    (hs : (f s).toList.length < s.toList.length) (mem : (k, s) ∈ l) :
    ((l.map fun e => if e.1 = k then (e.1, f e.2) else e).flatMap fun e => e.2.toList).length <
      (l.flatMap fun e => e.2.toList).length := by
  induction l with
  | nil => exact absurd mem (by simp)
  | cons e rest ih =>
      have le := adjust_count_le (l := rest) (k := k) hf
      rcases List.mem_cons.1 mem with rfl | mem
      · simp at le ⊢
        omega
      · have := hf e.2
        have := ih mem
        by_cases h : e.1 = k <;> simp [h] at this le ⊢ <;> omega

private theorem erase_length_le (category : CategoryName) (s : OrderedSet CategoryName) :
    (s.erase category).toList.length ≤ s.toList.length :=
  List.length_filter_le _ _

private theorem erase_length_lt {category : CategoryName} {s : OrderedSet CategoryName}
    (mem : category ∈ s) : (s.erase category).toList.length < s.toList.length :=
  List.length_filter_lt_length_iff_exists.2 ⟨category, mem, by simp⟩

theorem strike_count_le (agenda : Agenda) (absence : AbsenceId) (category : CategoryName) :
    (agenda.strike absence category).pendingCount ≤ agenda.pendingCount :=
  adjust_count_le (erase_length_le category)

theorem strikePairs_count_le (agenda : Agenda) (pairs : List (AbsenceId × CategoryName)) :
    (agenda.strikePairs pairs).pendingCount ≤ agenda.pendingCount := by
  induction pairs generalizing agenda with
  | nil => exact Nat.le_refl _
  | cons p rest ih => exact Nat.le_trans (ih _) (strike_count_le _ _ _)

private theorem pending_of_front {agenda : Agenda} {record : Absence} {category : CategoryName}
    (h : agenda.front? = some (record, category)) :
    ∃ s, (record.id, s) ∈ agenda.pending.toList ∧ category ∈ s := by
  simp only [front?, Option.bind_eq_some_iff, Option.map_eq_some_iff, Prod.mk.injEq] at h
  obtain ⟨r, -, c, head, hr, hc⟩ := h
  subst hr hc
  have mem : c ∈ (agenda.pendingFor r.id).toList := List.mem_of_head? head
  unfold pendingFor at mem
  cases found : agenda.pending.get? r.id with
  | none => simp [found] at mem
  | some s =>
      rw [found] at mem
      exact ⟨s, OrderedMap.get?_eq_some_iff.1 found, mem⟩

/-- Taking the next pair off leaves fewer pending pairs. -/
theorem strike_count_lt {agenda next : Agenda} {record : Absence} {category : CategoryName}
    (h : agenda.nextPair = (some (record, category), next)) :
    (next.strike record.id category).pendingCount < agenda.pendingCount := by
  obtain ⟨front, rfl⟩ := Prod.mk.inj h
  obtain ⟨s, mem, pending⟩ := pending_of_front front
  exact adjust_count_lt (erase_length_le category) (erase_length_lt pending) mem

/-- Taking all pairs of the next record off leaves fewer pending pairs. -/
theorem strikeAll_count_lt {agenda next : Agenda} {record : Absence}
    {category : CategoryName} (h : agenda.nextPair = (some (record, category), next)) :
    (next.strikeAll record.id).pendingCount < agenda.pendingCount := by
  obtain ⟨front, rfl⟩ := Prod.mk.inj h
  obtain ⟨s, mem, pending⟩ := pending_of_front front
  exact adjust_count_lt (f := fun _ => ∅) (fun _ => Nat.zero_le _) (List.length_pos_of_mem pending) mem

end Agenda

end Entitlement
