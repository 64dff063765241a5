import Entitlement.Ordered.Basic

/-!
Finite maps kept as lists of entries with strictly ascending keys. The order is part of the type,
so two maps with the same entries are equal, whatever the order in which they were filled.
-/

namespace Entitlement

/-- A finite map, listed by ascending key with one entry a key. -/
structure OrderedMap (κ ν : Type) [Ordered κ] where
  toList : List (κ × ν)
  ascending : toList.Pairwise fun p q => Ordered.before p.1 q.1

namespace OrderedMap

open Ordered

variable {κ ν ν' σ : Type}

/-- Replaces the values from the least key up, passing a state along. -/
def scanList (f : σ → κ → ν → σ × ν') : σ → List (κ × ν) → σ × List (κ × ν')
  | s, [] => (s, [])
  | s, (k, v) :: rest =>
    let (s, v) := f s k v
    let (s, rest) := scanList f s rest
    (s, (k, v) :: rest)

theorem scanList_keys (f : σ → κ → ν → σ × ν') (s : σ) (l : List (κ × ν)) :
    (scanList f s l).2.map (·.1) = l.map (·.1) := by
  induction l generalizing s with
  | nil => rfl
  | cons e rest ih => simp [scanList, ih]

variable [Ordered κ]

instance [DecidableEq κ] [DecidableEq ν] : DecidableEq (OrderedMap κ ν) := fun m n =>
  if h : m.toList = n.toList then
    .isTrue (by cases m; cases n; cases h; rfl)
  else
    .isFalse fun e => h (e ▸ rfl)

/-- Puts an entry at its place in an ascending list, over the entry of its key if there is one. -/
def insertInto (k : κ) (v : ν) : List (κ × ν) → List (κ × ν)
  | [] => [(k, v)]
  | (k', v') :: rest =>
    if before k k' then (k, v) :: (k', v') :: rest
    else if before k' k then (k', v') :: insertInto k v rest
    else (k, v) :: rest

theorem mem_insertInto {k : κ} {v : ν} {p : κ × ν} {l : List (κ × ν)}
    (h : l.Pairwise fun p q => before p.1 q.1) :
    p ∈ insertInto k v l ↔ p = (k, v) ∨ (p ∈ l ∧ p.1 ≠ k) := by
  induction l with
  | nil => simp [insertInto]
  | cons q rest ih =>
      obtain ⟨k', v'⟩ := q
      have hq {x} (hx : x ∈ rest) := (List.pairwise_cons.1 h).1 x hx
      unfold insertInto
      split
      · next hkk =>
        have away : ∀ x ∈ (k', v') :: rest, x.1 ≠ k := by
          intro x hx
          rcases List.mem_cons.1 hx with rfl | hx
          · exact (ne_of_before hkk).symm
          · exact (ne_of_before (trans hkk (hq hx))).symm
        constructor
        · intro hp
          rcases List.mem_cons.1 hp with hp | hp
          · exact .inl hp
          · exact .inr ⟨hp, away _ hp⟩
        · rintro (rfl | ⟨hp, -⟩)
          · simp
          · exact List.mem_cons_of_mem _ hp
      · split
        · next hkk =>
          simp only [List.mem_cons, ih h.of_cons]
          constructor
          · rintro (rfl | rfl | ⟨hp, hne⟩)
            · exact .inr ⟨.inl rfl, ne_of_before hkk⟩
            · exact .inl rfl
            · exact .inr ⟨.inr hp, hne⟩
          · rintro (rfl | ⟨rfl | hp, hne⟩)
            · exact .inr (.inl rfl)
            · exact .inl rfl
            · exact .inr (.inr ⟨hp, hne⟩)
        · next hkk hkk' =>
          have : k = k' := connected (by simpa using hkk) (by simpa using hkk')
          subst this
          simp only [List.mem_cons]
          constructor
          · rintro (rfl | hp)
            · exact .inl rfl
            · exact .inr ⟨.inr hp, (ne_of_before (hq hp)).symm⟩
          · rintro (rfl | ⟨rfl | hp, hne⟩)
            · exact .inl rfl
            · exact absurd rfl hne
            · exact .inr hp

theorem insertInto_ascending {k : κ} {v : ν} {l : List (κ × ν)}
    (h : l.Pairwise fun p q => before p.1 q.1) :
    (insertInto k v l).Pairwise fun p q => before p.1 q.1 := by
  induction l with
  | nil => simp [insertInto]
  | cons q rest ih =>
      obtain ⟨k', v'⟩ := q
      have hq {x} (hx : x ∈ rest) := (List.pairwise_cons.1 h).1 x hx
      unfold insertInto
      split
      · next hkk =>
        refine List.pairwise_cons.2 ⟨fun x hx => ?_, h⟩
        rcases List.mem_cons.1 hx with rfl | hx
        · exact hkk
        · exact trans hkk (hq hx)
      · split
        · next hkk =>
          refine List.pairwise_cons.2 ⟨fun x hx => ?_, ih h.of_cons⟩
          rcases (mem_insertInto h.of_cons).1 hx with rfl | ⟨hx, -⟩
          · exact hkk
          · exact hq hx
        · next hkk hkk' =>
          have : k = k' := connected (by simpa using hkk) (by simpa using hkk')
          subst this
          exact List.pairwise_cons.2 ⟨fun x hx => hq hx, h.of_cons⟩

def empty : OrderedMap κ ν := ⟨[], .nil⟩

instance : EmptyCollection (OrderedMap κ ν) := ⟨empty⟩

instance : Inhabited (OrderedMap κ ν) := ⟨empty⟩

def insert (m : OrderedMap κ ν) (k : κ) (v : ν) : OrderedMap κ ν :=
  ⟨insertInto k v m.toList, insertInto_ascending m.ascending⟩

def get? [DecidableEq κ] (m : OrderedMap κ ν) (k : κ) : Option ν :=
  m.toList.lookup k

def contains [DecidableEq κ] (m : OrderedMap κ ν) (k : κ) : Bool :=
  (m.get? k).isSome

def keys (m : OrderedMap κ ν) : List κ :=
  m.toList.map (·.1)

def values (m : OrderedMap κ ν) : List ν :=
  m.toList.map (·.2)

def size (m : OrderedMap κ ν) : Nat :=
  m.toList.length

def isEmpty (m : OrderedMap κ ν) : Bool :=
  m.toList.isEmpty

/-- Keeps the entries that pass a test. -/
def filter (p : κ → ν → Bool) (m : OrderedMap κ ν) : OrderedMap κ ν :=
  ⟨m.toList.filter fun e => p e.1 e.2, m.ascending.filter _⟩

def erase [DecidableEq κ] (m : OrderedMap κ ν) (k : κ) : OrderedMap κ ν :=
  m.filter fun k' _ => k' ≠ k

/-- Entries inserted one after the other: of two with one key the later stays. -/
def insertMany (m : OrderedMap κ ν) (l : List (κ × ν)) : OrderedMap κ ν :=
  l.foldl (fun m e => m.insert e.1 e.2) m

def ofList (l : List (κ × ν)) : OrderedMap κ ν :=
  insertMany empty l

/-- Replaces the value of a key that is present, and nothing else. -/
def adjust [DecidableEq κ] (m : OrderedMap κ ν) (k : κ) (f : ν → ν) : OrderedMap κ ν :=
  ⟨m.toList.map fun e => if e.1 = k then (e.1, f e.2) else e, by
    refine List.pairwise_map.2 (m.ascending.imp fun {p q} h => ?_)
    split <;> split <;> exact h⟩

/-- Replaces the values from the least key up, passing a state along. -/
def scan (f : σ → κ → ν → σ × ν') (s : σ) (m : OrderedMap κ ν) : σ × OrderedMap κ ν' :=
  let r := scanList f s m.toList
  (r.1, ⟨r.2, by
    have h : (m.toList.map (·.1)).Pairwise fun a b => before a b := List.pairwise_map.2 m.ascending
    rw [← scanList_keys f s] at h
    exact List.pairwise_map.1 h⟩)

@[simp] theorem toList_empty : (∅ : OrderedMap κ ν).toList = [] := rfl

@[simp] theorem get?_empty [DecidableEq κ] {k : κ} : (∅ : OrderedMap κ ν).get? k = none := rfl

/-- Looking a key up finds exactly the entry of that key. -/
theorem get?_eq_some_iff [DecidableEq κ] {m : OrderedMap κ ν} {k : κ} {v : ν} :
    m.get? k = some v ↔ (k, v) ∈ m.toList := by
  obtain ⟨l, h⟩ := m
  unfold get?
  induction l with
  | nil => simp
  | cons e rest ih =>
      obtain ⟨k', v'⟩ := e
      have hq {x} (hx : x ∈ rest) := (List.pairwise_cons.1 h).1 x hx
      have ih := ih h.of_cons
      simp only at ih
      by_cases hk : k = k'
      · subst hk
        simp only [List.lookup_cons, BEq.rfl, List.mem_cons, Prod.mk.injEq, true_and,
          Option.some.injEq]
        constructor
        · exact fun e => .inl e.symm
        · rintro (e | hm)
          · exact e.symm
          · exact (ne_of_before (hq hm) rfl).elim
      · have hne : (k == k') = false := by simp [hk]
        simp [List.lookup_cons, hne, hk, ih]

theorem get?_eq_none_iff [DecidableEq κ] {m : OrderedMap κ ν} {k : κ} :
    m.get? k = none ↔ ∀ v, (k, v) ∉ m.toList := by
  rw [Option.eq_none_iff_forall_ne_some]
  exact forall_congr' fun v => not_congr get?_eq_some_iff

theorem mem_toList_insert {m : OrderedMap κ ν} {k : κ} {v : ν} {p : κ × ν} :
    p ∈ (m.insert k v).toList ↔ p = (k, v) ∨ (p ∈ m.toList ∧ p.1 ≠ k) :=
  mem_insertInto m.ascending

@[simp] theorem get?_insert [DecidableEq κ] {m : OrderedMap κ ν} {k k' : κ} {v : ν} :
    (m.insert k v).get? k' = if k' = k then some v else m.get? k' := by
  split
  · next h =>
    subst h
    exact get?_eq_some_iff.2 (mem_toList_insert.2 (.inl rfl))
  · next h =>
    refine Option.ext fun w => ?_
    rw [get?_eq_some_iff, get?_eq_some_iff, mem_toList_insert]
    simp [h]

@[simp] theorem get?_filter_eq_some [DecidableEq κ] {m : OrderedMap κ ν} {p : κ → ν → Bool}
    {k : κ} {v : ν} : (m.filter p).get? k = some v ↔ m.get? k = some v ∧ p k v := by
  simp [get?_eq_some_iff, filter]

@[simp] theorem get?_erase [DecidableEq κ] {m : OrderedMap κ ν} {k k' : κ} :
    (m.erase k).get? k' = if k' = k then none else m.get? k' := by
  refine Option.ext fun w => ?_
  rw [erase, get?_filter_eq_some]
  split <;> simp_all

/-- A map is determined by what it holds under each key. -/
theorem ext [DecidableEq κ] {m n : OrderedMap κ ν} (h : ∀ k, m.get? k = n.get? k) : m = n := by
  have mem : ∀ p, p ∈ m.toList ↔ p ∈ n.toList := by
    rintro ⟨k, v⟩
    rw [← get?_eq_some_iff, ← get?_eq_some_iff, h]
  have := list_eq_of_mem_iff (fun hab => by simp [asymm hab]) m.ascending n.ascending mem
  cases m
  cases n
  cases this
  rfl

end OrderedMap

end Entitlement
