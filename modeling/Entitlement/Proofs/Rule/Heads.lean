import Entitlement.Proofs.Rule.Governing
import Entitlement.Proofs.Rule.Listing

/-!
The search for the head of a chain in any rule tree, whether links are missing, shared or cyclic, or lead to names
the tree does not know. One category is put in front at a time, each new, so the search ends before it has met more
categories than there are, and what it has met is a walk along successors from the head to where it began. It ends
at a category that none names as its successor, or else it has gone round a cycle: where it began names the head.
-/

namespace Entitlement

namespace RuleTree

open Ordered

/-- One more step of the search for a head, with the categories met so far listed latest first: the chosen
predecessor of the latest is put in front, unless it has been met. -/
def stepBack (tree : RuleTree) : List Category → Option (List Category)
  | [] => none
  | c :: walk => (tree.predecessor? c.name).bind fun previous =>
    if previous.name ∈ (c :: walk).map (·.name) then none else some (previous :: c :: walk)

inductive Searched (tree : RuleTree) (start : Category) : List Category → Prop
  | begin : Searched tree start [start]
  | step {walk longer : List Category} : Searched tree start walk → tree.stepBack walk = some longer →
      Searched tree start longer

variable {tree : RuleTree} {start c previous : Category} {walk : List Category}

theorem stepBack_eq_some_iff {longer : List Category} : tree.stepBack (c :: walk) = some longer ↔
    ∃ previous, tree.predecessor? c.name = some previous ∧ previous.name ∉ (c :: walk).map (·.name) ∧
      longer = previous :: c :: walk := by
  rw [stepBack, Option.bind_eq_some_iff]
  refine exists_congr fun previous => and_congr_right fun _ => ?_
  rw [Option.ite_none_left_eq_some, Option.some.injEq, eq_comm (a := longer)]

theorem stepBack_eq_none_iff : tree.stepBack (c :: walk) = none ↔
    ∀ previous, tree.predecessor? c.name = some previous → previous.name ∈ (c :: walk).map (·.name) := by
  rw [stepBack, Option.bind_eq_none_iff]
  refine forall₂_congr fun previous _ => ?_
  rw [ite_eq_left_iff, imp_iff_not (by simp), not_not]

/-- A step goes back by one category. -/
theorem Retreats.step {longer : List Category} (retreats : tree.Retreats start walk)
    (h : tree.stepBack walk = some longer) : tree.Retreats start longer := by
  cases walk with
  | nil => cases h
  | cons c walk =>
    obtain ⟨previous, found, fresh, rfl⟩ := stepBack_eq_some_iff.1 h
    exact ⟨retreats.last, List.isChain_cons_cons.2 ⟨found, retreats.chosen⟩,
      List.nodup_cons.2 ⟨fresh, retreats.distinct⟩⟩

/-- The steps of the search lead back along exactly those categories that it may go back along. -/
theorem searched_iff_retreats : tree.Searched start walk ↔ tree.Retreats start walk := by
  constructor
  · intro searched
    induction searched with
    | begin => exact .single
    | step _ steps retreats => exact retreats.step steps
  · intro retreats
    induction walk with
    | nil => cases retreats.last
    | cons previous walk ih =>
      obtain ⟨last, chosen, distinct⟩ := retreats
      cases walk with
      | nil =>
        have same : previous = start := Option.some.inj last
        exact same ▸ .begin
      | cons c walk =>
        obtain ⟨found, chosen⟩ := List.isChain_cons_cons.1 chosen
        obtain ⟨fresh, distinct⟩ := List.nodup_cons.1 distinct
        exact .step (ih ⟨last, chosen, distinct⟩) (stepBack_eq_some_iff.2 ⟨previous, found, fresh, rfl⟩)

theorem predecessor?_eq_none_iff {name : CategoryName} :
    tree.predecessor? name = none ↔ ∀ c ∈ tree.all, c.next ≠ some name := by
  rw [predecessor?, List.find?_eq_none]
  refine forall₂_congr fun c _ => ?_
  rw [decide_eq_true_iff]

/-- The chosen predecessor is the least by name. -/
theorem Keyed.predecessor?_least (keyed : tree.Keyed) {name : CategoryName}
    (h : tree.predecessor? name = some previous) {c : Category} (hc : c ∈ tree.all)
    (next : c.next = some name) : c = previous ∨ before previous.name c.name = true := by
  obtain ⟨-, earlier, later, split, passed⟩ := List.find?_eq_some_iff_append.1 h
  have ascending := keyed.pairwise_all
  rw [split] at hc ascending
  rcases List.mem_append.1 hc with passedBy | hc
  · simpa [next] using passed c passedBy
  · rcases List.mem_cons.1 hc with same | behind
    · exact .inl same
    · exact .inr ((List.pairwise_cons.1 (List.pairwise_append.1 ascending).2.1).1 c behind)

/-- Following successors retraces a walk up to its last category, and comes back if that one names a category of
the walk. -/
theorem follow_of_linked {visited : List CategoryName} {first last : Category}
    (linked : (c :: walk).IsChain tree.Precedes) (distinct : (walk.map (·.name)).Nodup)
    (fresh : ∀ x ∈ walk, x.name ∉ visited) (ends : (c :: walk).getLast? = some last)
    (closes : tree.Precedes last first) (old : first.name ∈ visited) :
    tree.follow visited c = ⟨c :: walk, .revisits first⟩ := by
  induction walk generalizing visited c with
  | nil =>
    have same : c = last := Option.some.inj ends
    obtain ⟨next, link, known⟩ := Option.bind_eq_some_iff.1 (same ▸ closes)
    rw [follow_known link known, if_pos old]
  | cons d walk ih =>
    obtain ⟨goes, linked⟩ := List.isChain_cons_cons.1 linked
    obtain ⟨next, link, known⟩ := Option.bind_eq_some_iff.1 goes
    obtain ⟨new, fresh⟩ := List.forall_mem_cons.1 fresh
    obtain ⟨other, distinct⟩ := List.nodup_cons.1 distinct
    have fresh (x : Category) (hx : x ∈ walk) : x.name ∉ d.name :: visited := by
      rw [List.mem_cons, not_or]
      exact ⟨fun same => other (List.mem_map.2 ⟨x, hx, same⟩), fresh x hx⟩
    rw [follow_known link known, if_neg new, ih linked distinct fresh ends (List.mem_cons_of_mem _ old)]

/-- On a walk through distinct names, only the last category may name the first. -/
theorem eq_last_of_closes {first last : Category} (linked : (first :: walk).IsChain tree.Precedes)
    (distinct : ((first :: walk).map (·.name)).Nodup) (ends : (first :: walk).getLast? = some last)
    (mem : c ∈ first :: walk) (closes : tree.Precedes c first) : c = last := by
  obtain ⟨before, behind, split⟩ := List.append_of_mem mem
  cases behind with
  | nil =>
    rw [split, List.getLast?_concat] at ends
    exact Option.some.inj ends
  | cons d behind =>
    rw [split] at linked
    have goes : tree.Precedes c d :=
      (List.isChain_cons_cons.1 (List.isChain_append.1 linked).2.1).1
    obtain rfl : first = d := Option.some.inj (closes.symm.trans goes)
    have again : first ∈ walk := by
      cases before with
      | nil =>
        rw [(List.cons.inj split).2]
        exact List.mem_cons_self
      | cons _ before =>
        rw [(List.cons.inj split).2]
        simp
    exact absurd (List.mem_map_of_mem again) (List.nodup_cons.1 distinct).1

/-- What the search for the head of the chain of a category comes to. It meets the categories of a walk, ends after
fewer steps than the tree has categories, and its result leads back to the category along the walk. Either no
category names the result as its successor, or the walk already holds the predecessor that is chosen for it, which
is where the search began; then following successors from the result comes back to it behind the walk. -/
structure FindsHead (tree : RuleTree) (start : Category) (walk : List Category) : Prop where
  searched : tree.Searched start walk
  halts : tree.stepBack walk = none
  bounded {other : List Category} : tree.Searched start other → other.length ≤ tree.all.length
  head : walk.head? = some (tree.head start)
  last : walk.getLast? = some start
  linked : walk.IsChain tree.Precedes
  distinct : (walk.map (·.name)).Nodup
  inside : ∀ x ∈ walk, x ∈ tree.all
  ends : (∀ c ∈ tree.all, c.next ≠ some (tree.head start).name) ∨
    ∃ previous ∈ walk, tree.predecessor? (tree.head start).name = some previous ∧
      (∀ c ∈ tree.all, c.next = some (tree.head start).name →
        c = previous ∨ before previous.name c.name = true) ∧
      previous = start ∧ tree.pathFrom (tree.head start) = ⟨walk, .revisits (tree.head start)⟩

/-- In every rule tree the search for a head ends, and its result leads back to where the search began. -/
theorem head_leads_back (categories : List Category) (codes : List CodeEntry) {start : Category}
    (known : start ∈ (ofLists categories codes).all) :
    ∃ walk, (ofLists categories codes).FindsHead start walk := by
  have keyed := keyed_ofLists categories codes
  generalize ofLists categories codes = tree at known keyed
  obtain ⟨walk, retreats, head, -, met⟩ := tree.headFrom_retreats (List.mem_singleton_self start.name)
  change walk.head? = some (tree.head start) at head
  change ∀ previous, tree.predecessor? (tree.head start).name = some previous → _ at met
  have linked := retreats.linked keyed known
  have inside := retreats.inside known
  have bounded {other : List Category} (searched : tree.Searched start other) :
      other.length ≤ tree.all.length := by
    have retreats := searched_iff_retreats.1 searched
    exact length_le_all retreats.distinct (retreats.inside known)
  -- The search began at a category of the walk, so every predecessor met is on the walk.
  have onWalk (previous : Category) (found : tree.predecessor? (tree.head start).name = some previous) :
      previous.name ∈ walk.map (·.name) := by
    rcases met previous found with old | here
    · rw [List.mem_singleton.1 old]
      exact List.mem_map_of_mem (List.mem_of_getLast? retreats.last)
    · exact here
  cases walk with
  | nil => cases head
  | cons top walk =>
    have top_eq : top = tree.head start := Option.some.inj head
    subst top_eq
    refine ⟨_, searched_iff_retreats.2 retreats, stepBack_eq_none_iff.2 onWalk, bounded, head, retreats.last,
      linked, retreats.distinct, inside, ?_⟩
    cases found : tree.predecessor? (tree.head start).name with
    | none => exact .inl (predecessor?_eq_none_iff.1 found)
    | some previous =>
      obtain ⟨x, hx, same⟩ := List.mem_map.1 (onWalk previous found)
      obtain rfl := keyed.eq_of_name (inside x hx) (predecessor?_mem found) same
      have closes : tree.Precedes x (tree.head start) := by
        rw [Precedes, next_of_predecessor found]
        exact keyed.known (inside _ List.mem_cons_self)
      obtain rfl := eq_last_of_closes linked retreats.distinct retreats.last hx closes
      obtain ⟨other, distinct⟩ := List.nodup_cons.1 retreats.distinct
      refine .inr ⟨x, hx, rfl, fun c hc next => keyed.predecessor?_least found hc next, rfl, ?_⟩
      exact follow_of_linked linked distinct
        (fun y hy seen => other (List.mem_map.2 ⟨y, hy, List.mem_singleton.1 seen⟩))
        retreats.last closes (List.mem_singleton_self _)

def sampleLink (name next : CategoryName) : Category :=
  ⟨name, "", .programmed, .year, none, none, some next, false, false⟩

/-- Three categories in a circle, one that leads into it, and one that leads nowhere. -/
def sampleCircle : List Category :=
  [sampleLink "A" "B", sampleLink "B" "C", sampleLink "C" "A", sampleLink "D" "B", sampleLink "E" "Z"]

/-- The search from a category on a circle goes round it. -/
theorem circle_searched : sampleLink "B" "C" ∈ (ofLists sampleCircle []).all ∧
    ∃ walk, (ofLists sampleCircle []).FindsHead (sampleLink "B" "C") walk :=
  ⟨by decide, head_leads_back sampleCircle [] (by decide)⟩

end RuleTree

end Entitlement
