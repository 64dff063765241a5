import Entitlement.Ordered.Basic

/-!
Finite sets kept as strictly ascending lists. The order is part of the type, so two sets with the
same members are equal and `toList` is the only listing of a set.
-/

namespace Entitlement

/-- A finite set, listed in ascending order without repeats. -/
structure OrderedSet (α : Type) [Ordered α] where
  toList : List α
  ascending : toList.Pairwise fun a b => Ordered.before a b

namespace OrderedSet

open Ordered

variable {α : Type} [Ordered α]

instance [DecidableEq α] : DecidableEq (OrderedSet α) := fun s t =>
  if h : s.toList = t.toList then
    .isTrue (by cases s; cases t; cases h; rfl)
  else
    .isFalse fun e => h (e ▸ rfl)

instance : Membership α (OrderedSet α) := ⟨fun s a => a ∈ s.toList⟩

theorem mem_def {a : α} {s : OrderedSet α} : a ∈ s ↔ a ∈ s.toList := Iff.rfl

instance [DecidableEq α] (a : α) (s : OrderedSet α) : Decidable (a ∈ s) :=
  inferInstanceAs (Decidable (a ∈ s.toList))

/-- Puts a value at its place in an ascending list, unless it is there. -/
def insertInto (a : α) : List α → List α
  | [] => [a]
  | b :: rest =>
    if before a b then a :: b :: rest
    else if before b a then b :: insertInto a rest
    else b :: rest

theorem mem_insertInto {a x : α} {l : List α} : x ∈ insertInto a l ↔ x = a ∨ x ∈ l := by
  induction l with
  | nil => simp [insertInto]
  | cons b rest ih =>
      unfold insertInto
      split
      · simp
      · split
        · simp [ih, or_left_comm]
        · next hab hba =>
          have : a = b := connected (by simpa using hab) (by simpa using hba)
          subst this
          simp

theorem insertInto_ascending {a : α} {l : List α} (h : l.Pairwise fun a b => before a b) :
    (insertInto a l).Pairwise fun a b => before a b := by
  induction l with
  | nil => simp [insertInto]
  | cons b rest ih =>
      have hb {x} (hx : x ∈ rest) := (List.pairwise_cons.1 h).1 x hx
      unfold insertInto
      split
      · next hab =>
        refine List.pairwise_cons.2 ⟨fun x hx => ?_, h⟩
        rcases List.mem_cons.1 hx with rfl | hx
        · exact hab
        · exact trans hab (hb hx)
      · split
        · next hba =>
          refine List.pairwise_cons.2 ⟨fun x hx => ?_, ih h.of_cons⟩
          rcases mem_insertInto.1 hx with rfl | hx
          · exact hba
          · exact hb hx
        · exact h

def empty : OrderedSet α := ⟨[], .nil⟩

instance : EmptyCollection (OrderedSet α) := ⟨empty⟩

instance : Inhabited (OrderedSet α) := ⟨empty⟩

def insert (s : OrderedSet α) (a : α) : OrderedSet α :=
  ⟨insertInto a s.toList, insertInto_ascending s.ascending⟩

def filter (p : α → Bool) (s : OrderedSet α) : OrderedSet α :=
  ⟨s.toList.filter p, s.ascending.filter p⟩

def erase [DecidableEq α] (s : OrderedSet α) (a : α) : OrderedSet α :=
  s.filter (· ≠ a)

def insertMany (s : OrderedSet α) (l : List α) : OrderedSet α :=
  l.foldl insert s

def ofList (l : List α) : OrderedSet α :=
  insertMany empty l

def contains [DecidableEq α] (s : OrderedSet α) (a : α) : Bool :=
  decide (a ∈ s)

def isEmpty (s : OrderedSet α) : Bool :=
  s.toList.isEmpty

@[simp] theorem toList_empty : (∅ : OrderedSet α).toList = [] := rfl

@[simp] theorem mem_empty {a : α} : ¬ a ∈ (∅ : OrderedSet α) := List.not_mem_nil

@[simp] theorem mem_insert {s : OrderedSet α} {a x : α} : x ∈ s.insert a ↔ x = a ∨ x ∈ s :=
  mem_insertInto

@[simp] theorem mem_filter {p : α → Bool} {s : OrderedSet α} {x : α} :
    x ∈ s.filter p ↔ x ∈ s ∧ p x := List.mem_filter

@[simp] theorem mem_erase [DecidableEq α] {s : OrderedSet α} {a x : α} :
    x ∈ s.erase a ↔ x ∈ s ∧ x ≠ a := by
  simp [erase]

@[simp] theorem contains_iff [DecidableEq α] {s : OrderedSet α} {a : α} :
    s.contains a = true ↔ a ∈ s := by
  simp [contains]

@[simp] theorem mem_insertMany {s : OrderedSet α} {l : List α} {x : α} :
    x ∈ s.insertMany l ↔ x ∈ s ∨ x ∈ l := by
  induction l generalizing s with
  | nil => simp [insertMany]
  | cons a rest ih =>
      have step : s.insertMany (a :: rest) = (s.insert a).insertMany rest := rfl
      simp [step, ih, or_assoc, or_left_comm]

@[simp] theorem mem_ofList {l : List α} {x : α} : x ∈ ofList l ↔ x ∈ l := by
  simp [ofList, show (empty : OrderedSet α) = ∅ from rfl]

/-- A set is determined by its members. -/
theorem ext {s t : OrderedSet α} (h : ∀ x, x ∈ s ↔ x ∈ t) : s = t := by
  have := list_eq_of_mem_iff (fun hab => by simp [asymm hab]) s.ascending t.ascending h
  cases s
  cases t
  cases this
  rfl

end OrderedSet

end Entitlement
