import Mathlib.Data.List.Chain
import Mathlib.Data.List.Perm.Subperm
import Entitlement.Proofs.Rule.Walks

/-!
The governing path of a category: from the head of its chain along the successors, up to the first
unlimited category from the requested one on, or else to a category without a successor. In any rule tree,
whether links are missing, shared or cyclic, there is at most one such path, and every walk from the head
that goes on as far as it may is a part of it; so if there is one, no walk comes back to a category.
-/

namespace Entitlement

namespace RuleTree

def Precedes (tree : RuleTree) (a b : Category) : Prop :=
  a.next.bind tree.category? = some b

/-- A walk from the head of the chain of a category along successors. It does not go on behind an unlimited
category once it has met the requested one. -/
structure Roams (tree : RuleTree) (start : Category) (walk : List Category) : Prop where
  head : walk.head? = some (tree.head start)
  linked : walk.IsChain tree.Precedes
  unstopped {before behind : List Category} {c : Category} : walk = before ++ c :: behind →
    behind ≠ [] → start ∈ before ++ [c] → c.isUnlimited = false

/-- The walk that governs a category: it meets the category, no category twice, and ends where it must. -/
structure Governs (tree : RuleTree) (start : Category) (walk : List Category) : Prop
    extends tree.Roams start walk where
  distinct : (walk.map (·.name)).Nodup
  passes : start ∈ walk
  stops {last : Category} : walk.getLast? = some last → last.isUnlimited = true ∨ last.next = none

variable {tree : RuleTree}

/-- Two walks along successors that begin alike agree as far as both go. -/
theorem comparable_of_linked {walk other : List Category} (h : walk.IsChain tree.Precedes)
    (h' : other.IsChain tree.Precedes) (same : walk.head? = other.head?) :
    walk <+: other ∨ other <+: walk := by
  induction walk generalizing other with
  | nil => exact .inl List.nil_prefix
  | cons c rest ih =>
    cases other with
    | nil => exact .inr List.nil_prefix
    | cons d rest' =>
      obtain rfl := Option.some.inj same
      cases rest with
      | nil => exact .inl (List.prefix_append [c] rest')
      | cons b rest =>
        cases rest' with
        | nil => exact .inr (List.prefix_append [c] (b :: rest))
        | cons b' rest' =>
          rw [List.isChain_cons_cons] at h h'
          have next : some b = some b' := h.1.symm.trans h'.1
          rcases ih h.2 h'.2 next with shorter | longer
          · exact .inl (List.cons_prefix_cons.2 ⟨rfl, shorter⟩)
          · exact .inr (List.cons_prefix_cons.2 ⟨rfl, longer⟩)

namespace Governs

variable {start : Category} {walk other : List Category}

/-- Every walk that goes on as far as it may is a part of the governing path. -/
theorem initial_of_roams (governs : tree.Governs start walk) (roams : tree.Roams start other) :
    other <+: walk := by
  rcases comparable_of_linked roams.linked governs.linked (roams.head.trans governs.head.symm) with
    within | ⟨behind, rfl⟩
  · exact within
  · cases behind with
    | nil => simp only [List.append_nil, List.prefix_rfl]
    | cons b behind =>
      obtain ⟨before, last, rfl⟩ := (List.eq_nil_or_concat' walk).resolve_left
        (List.ne_nil_of_mem governs.passes)
      rcases governs.stops List.getLast?_concat with unlimited | final
      · have goes := roams.unstopped (List.append_assoc before [last] (b :: behind))
          (List.cons_ne_nil b behind) governs.passes
        rw [unlimited] at goes
        cases goes
      · have link : tree.Precedes last b :=
          (List.isChain_append.1 roams.linked).2.2 last List.getLast?_concat b rfl
        rw [Precedes, final] at link
        cases link

/-- A category has one governing path. -/
theorem unique (governs : tree.Governs start walk) (governs' : tree.Governs start other) :
    walk = other :=
  List.IsPrefix.eq_of_length_le (governs'.initial_of_roams governs.toRoams)
    (governs.initial_of_roams governs'.toRoams).length_le

/-- Where there is a governing path, no walk from the head comes back before it must stop. -/
theorem nodup_of_roams (governs : tree.Governs start walk) (roams : tree.Roams start other) :
    (other.map (·.name)).Nodup :=
  governs.distinct.sublist ((governs.initial_of_roams roams).map _).sublist

end Governs

/-- A walk through distinct names of the tree is no longer than the tree. -/
theorem length_le_all {walk : List Category} (distinct : (walk.map (·.name)).Nodup)
    (known : ∀ c ∈ walk, c ∈ tree.all) : walk.length ≤ tree.all.length :=
  (List.Nodup.subperm distinct.of_map known).length_le

theorem follow_linked (visited : List CategoryName) (c : Category) :
    (tree.follow visited c).categories.head? = some c ∧
      (tree.follow visited c).categories.IsChain tree.Precedes := by
  induction visited, c using tree.follow_induct with
  | halt visited c ending halts _ =>
    rw [halts]
    exact ⟨rfl, .singleton c⟩
  | step visited c s next link known _ goes ih =>
    rw [goes]
    refine ⟨rfl, List.isChain_cons.2 ⟨fun b hb => ?_, ih.2⟩⟩
    rw [ih.1, Option.mem_some_iff] at hb
    rw [Precedes, link, ← hb]
    exact known

/-- A walk that comes to its end ends at a category without a successor. -/
theorem follow_final {visited : List CategoryName} {c last : Category}
    (complete : (tree.follow visited c).ending = .complete)
    (h : (tree.follow visited c).categories.getLast? = some last) : last.next = none := by
  induction visited, c using tree.follow_induct with
  | halt visited c ending halts final =>
    rw [halts] at h complete
    exact Option.some.inj h ▸ final.1 complete
  | step visited c s next _ _ _ goes ih =>
    rw [goes] at complete h
    cases rest : (tree.follow (s.name :: visited) s).categories with
    | nil =>
      have begins := (tree.follow_linked (s.name :: visited) s).1
      rw [rest] at begins
      cases begins
    | cons d rest' =>
      rw [rest, List.getLast?_cons_cons, ← rest] at h
      exact ih complete h

theorem pathFrom_mem {c x : Category} (known : c ∈ tree.all)
    (h : x ∈ (tree.pathFrom c).categories) : x ∈ tree.all := by
  rcases follow_mem h with rfl | inside
  · exact known
  · exact inside

theorem pathFrom_length_le {c : Category} (known : c ∈ tree.all) :
    (tree.pathFrom c).categories.length ≤ tree.all.length :=
  length_le_all (follow_nodup List.mem_cons_self) fun _ => pathFrom_mem known

/-- A search for the head of a chain may go back from a category along these, the latest first: each is the one
chosen as the predecessor of the category behind it, and is new. -/
structure Retreats (tree : RuleTree) (start : Category) (walk : List Category) : Prop where
  last : walk.getLast? = some start
  chosen : walk.IsChain fun previous c => tree.predecessor? c.name = some previous
  distinct : (walk.map (·.name)).Nodup

theorem next_of_predecessor {c previous : Category} (h : tree.predecessor? c.name = some previous) :
    previous.next = some c.name := by
  simpa using List.find?_some h

namespace Retreats

variable {start : Category} {walk : List Category}

theorem single : tree.Retreats start [start] :=
  ⟨rfl, .singleton start, List.nodup_singleton _⟩

/-- The search is still in the tree. -/
theorem inside (retreats : tree.Retreats start walk) (known : start ∈ tree.all) : ∀ x ∈ walk, x ∈ tree.all := by
  obtain ⟨last, chosen, -⟩ := retreats
  induction walk with
  | nil => cases last
  | cons c rest ih =>
    cases rest with
    | nil =>
      have same : c = start := Option.some.inj last
      intro x hx
      rwa [List.mem_singleton.1 hx, same]
    | cons d rest =>
      obtain ⟨first, chosen⟩ := List.isChain_cons_cons.1 chosen
      rw [List.getLast?_cons_cons] at last
      exact List.forall_mem_cons.2 ⟨predecessor?_mem first, ih last chosen⟩

/-- The way back is a walk along successors. -/
theorem linked (retreats : tree.Retreats start walk) (keyed : tree.Keyed) (known : start ∈ tree.all) :
    walk.IsChain tree.Precedes := by
  refine retreats.chosen.imp_of_mem_imp fun previous c _ hc chosen => ?_
  rw [Precedes, next_of_predecessor chosen]
  exact keyed.known (retreats.inside known c hc)

end Retreats

/-- The search for the head goes back to where every predecessor has been met. -/
theorem headFrom_retreats {visited : List CategoryName} {c : Category} (seen : c.name ∈ visited) :
    ∃ walk, tree.Retreats c walk ∧ walk.head? = some (tree.headFrom visited c) ∧
      (∀ x ∈ walk, x = c ∨ x.name ∉ visited) ∧
      ∀ previous, tree.predecessor? (tree.headFrom visited c).name = some previous →
        previous.name ∈ visited ∨ previous.name ∈ walk.map (·.name) := by
  induction visited, c using headFrom.induct tree with
  | case1 visited c first =>
    rw [headFrom_none first]
    exact ⟨[c], .single, rfl, fun x hx => .inl (List.mem_singleton.1 hx),
      fun previous found => by simp [first] at found⟩
  | case2 visited c previous found old =>
    rw [headFrom_some found, if_pos old]
    refine ⟨[c], .single, rfl, fun x hx => .inl (List.mem_singleton.1 hx), fun p found' => .inl ?_⟩
    rwa [Option.some.inj (found'.symm.trans found)]
  | case3 visited c previous found fresh ih =>
    rw [headFrom_some found, if_neg fresh]
    obtain ⟨walk, ⟨last, chosen, distinct⟩, head, new, met⟩ := ih List.mem_cons_self
    have unseen (x : Category) (hx : x ∈ walk) : x.name ∉ visited := by
      rcases new x hx with rfl | unseen
      · exact fresh
      · exact fun old => unseen (List.mem_cons_of_mem _ old)
    have filled : walk ≠ [] := by
      rintro rfl
      cases head
    refine ⟨walk ++ [c], ⟨List.getLast?_concat, ?_, ?_⟩, ?_, ?_, fun p found => ?_⟩
    · refine List.isChain_append.2 ⟨chosen, .singleton c, fun a ha b hb => ?_⟩
      rw [last, Option.mem_some_iff] at ha
      rw [List.head?_cons, Option.mem_some_iff] at hb
      rwa [← ha, ← hb]
    · rw [List.map_append, List.map_singleton, List.nodup_append]
      refine ⟨distinct, List.nodup_singleton _, fun name met other here => ?_⟩
      obtain ⟨x, hx, rfl⟩ := List.mem_map.1 met
      rw [List.mem_singleton.1 here]
      exact fun same => unseen x hx (same ▸ seen)
    · rw [List.head?_append_of_ne_nil _ filled, head]
    · intro x hx
      rcases List.mem_append.1 hx with earlier | here
      · exact .inr (unseen x earlier)
      · exact .inl (List.mem_singleton.1 here)
    · rw [List.map_append, List.mem_append]
      rcases met p found with old | here
      · rcases List.mem_cons.1 old with same | old
        · exact .inr (.inl (same ▸ List.mem_map_of_mem (List.mem_of_getLast? last)))
        · exact .inl old
      · exact .inr (.inl here)

/-- The search for the head goes back along a walk that ends at the category, meeting each name once. -/
theorem headFrom_walk (keyed : tree.Keyed) {visited : List CategoryName} {c : Category}
    (known : tree.category? c.name = some c) (seen : c.name ∈ visited) :
    ∃ walk : List Category, walk.head? = some (tree.headFrom visited c) ∧ walk.getLast? = some c ∧
      walk.IsChain tree.Precedes ∧ (walk.map (·.name)).Nodup ∧
        ∀ x ∈ walk, x ∈ tree.all ∧ (x = c ∨ x.name ∉ visited) := by
  have here : c ∈ tree.all := category?_mem known
  obtain ⟨walk, retreats, head, new, -⟩ := tree.headFrom_retreats seen
  exact ⟨walk, head, retreats.last, retreats.linked keyed here, retreats.distinct,
    fun x hx => ⟨retreats.inside here x hx, new x hx⟩⟩

def upTo (name : CategoryName) (reached : Bool) : List Category → List Category
  | [] => []
  | c :: rest =>
    if (reached || c.name = name) && c.isUnlimited then [c]
    else c :: upTo name (reached || c.name = name) rest

/-- A walk stops at its last category, which is unlimited, and by then has met the requested one. -/
def Stops (name : CategoryName) (reached : Bool) (walk : List Category) : Prop :=
  ∃ c, walk.getLast? = some c ∧ c.isUnlimited = true ∧
    (reached = true ∨ ∃ x ∈ walk, x.name = name)

def governing (tree : RuleTree) (start : Category) : List Category :=
  upTo start.name false (tree.pathFrom (tree.head start)).categories

section upTo

variable {name : CategoryName} {reached : Bool} {categories : List Category}

theorem upTo_initial : upTo name reached categories <+: categories := by
  induction categories generalizing reached with
  | nil => exact List.prefix_rfl
  | cons c rest ih =>
    rw [upTo]
    split
    · exact List.prefix_append [c] rest
    · exact List.cons_prefix_cons.2 ⟨rfl, ih⟩

theorem head?_upTo : (upTo name reached categories).head? = categories.head? := by
  cases categories with
  | nil => rfl
  | cons c rest =>
    rw [upTo]
    split <;> rfl

/-- Before its last category nothing is unlimited once the requested one is met. -/
theorem upTo_unstopped {before behind : List Category} {c : Category}
    (split : upTo name reached categories = before ++ c :: behind) (further : behind ≠ [])
    (met : reached = true ∨ ∃ x ∈ before ++ [c], x.name = name) : c.isUnlimited = false := by
  induction categories generalizing reached before with
  | nil => simp [upTo] at split
  | cons d rest ih =>
    rw [upTo] at split
    split at split
    · cases before with
      | nil => exact absurd (List.cons.inj split).2.symm further
      | cons b before => simp at split
    · next goes =>
      cases before with
      | nil =>
        obtain ⟨rfl, -⟩ := List.cons.inj split
        have here : (reached || d.name = name) = true := by
          rcases met with rfl | ⟨x, hx, named⟩
          · rfl
          · rw [List.mem_singleton.1 hx] at named
            simp [named]
        simpa [here] using goes
      | cons b before =>
        obtain ⟨rfl, later⟩ := List.cons.inj split
        refine ih later ?_
        rcases met with rfl | ⟨x, hx, named⟩
        · exact .inl rfl
        · rcases List.mem_cons.1 hx with rfl | inside
          · simp [named]
          · exact .inr ⟨x, inside, named⟩

theorem Stops.single {c : Category} (stops : ((reached || c.name = name) && c.isUnlimited) = true) :
    Stops name reached [c] := by
  simp only [Bool.and_eq_true, Bool.or_eq_true, decide_eq_true_eq] at stops
  exact ⟨c, rfl, stops.2, stops.1.imp_right fun named => ⟨c, List.mem_singleton_self c, named⟩⟩

theorem Stops.cons {d : Category} {walk : List Category}
    (stops : Stops name (reached || d.name = name) walk) : Stops name reached (d :: walk) := by
  obtain ⟨c, last, unlimited, met⟩ := stops
  refine ⟨c, by rw [List.getLast?_cons, last, Option.getD_some], unlimited, ?_⟩
  simp only [Bool.or_eq_true, decide_eq_true_eq] at met
  rcases met with (reached | named) | ⟨x, hx, named⟩
  · exact .inl reached
  · exact .inr ⟨d, List.mem_cons_self, named⟩
  · exact .inr ⟨x, List.mem_cons_of_mem _ hx, named⟩

/-- Either all categories are taken, or the walk stops at an unlimited one. -/
theorem upTo_stops : upTo name reached categories = categories ∨
    Stops name reached (upTo name reached categories) := by
  induction categories generalizing reached with
  | nil => exact .inl rfl
  | cons d rest ih =>
    rw [upTo]
    split
    · next stops => exact .inr (.single stops)
    · rcases @ih (reached || d.name = name) with all | stops
      · exact .inl (by rw [all])
      · exact .inr stops.cons

end upTo

/-- The categories a chain is made from are a walk from its head, in any tree. -/
theorem roams_governing (start : Category) : tree.Roams start (tree.governing start) where
  head := head?_upTo.trans (follow_linked _ _).1
  linked := by
    obtain ⟨behind, split⟩ : tree.governing start <+: (tree.pathFrom (tree.head start)).categories :=
      upTo_initial
    have linked : (tree.pathFrom (tree.head start)).categories.IsChain tree.Precedes :=
      (follow_linked _ _).2
    exact (split ▸ linked).left_of_append
  unstopped split further met := upTo_unstopped split further (.inr ⟨start, met, rfl⟩)

/-- If the path from the head is complete, or the walk along it stops at an unlimited category, it
governs the category. -/
theorem governs_governing (keyed : tree.Keyed) {start : Category}
    (known : tree.category? start.name = some start)
    (ends : (tree.pathFrom (tree.head start)).ending = .complete ∨
      Stops start.name false (tree.governing start)) : tree.Governs start (tree.governing start) := by
  have top : tree.head start ∈ tree.all := headFrom_mem (category?_mem known)
  have inside (x : Category) (hx : x ∈ tree.governing start) : x ∈ tree.all :=
    pathFrom_mem top (upTo_initial.subset hx)
  have distinct : ((tree.governing start).map (·.name)).Nodup :=
    (follow_nodup List.mem_cons_self).sublist (upTo_initial.map _).sublist
  have stopped (stops : Stops start.name false (tree.governing start)) :
      tree.Governs start (tree.governing start) := by
    obtain ⟨c, ends, unlimited, met⟩ := stops
    obtain ⟨x, hx, named⟩ := met.resolve_left Bool.false_ne_true
    obtain rfl := keyed.eq_of_name (inside x hx) (category?_mem known) named
    refine ⟨tree.roams_governing x, distinct, hx, fun {last} h => .inl ?_⟩
    exact Option.some.inj (ends.symm.trans h) ▸ unlimited
  have stopped_or : tree.governing start = (tree.pathFrom (tree.head start)).categories ∨
      Stops start.name false (tree.governing start) := upTo_stops
  rcases stopped_or with same | early
  · rcases ends with complete | early
    · obtain ⟨-, -, -, passes⟩ := head_leads keyed known complete
      exact ⟨tree.roams_governing start, distinct, same ▸ passes,
        fun h => .inr (follow_final complete (same ▸ h))⟩
    · exact stopped early
  · exact stopped early

end RuleTree

end Entitlement
