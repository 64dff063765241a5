import Mathlib.Data.List.Induction
import Entitlement.Proofs.Rule.Index
import Entitlement.Rule.Path

/-!
Walks in a rule tree in which no two categories name the same successor. A walk that comes to its end
meets each of its categories once, and going back from any of them leads to its first; so all
categories of a complete chain share the head and the path.
-/

namespace Entitlement

namespace RuleTree

def Unshared (tree : RuleTree) : Prop :=
  ∀ a ∈ tree.all, ∀ b ∈ tree.all, ∀ name, a.next = some name → b.next = some name → a = b

inductive Leads (tree : RuleTree) : Category → List Category → Prop
  | last {c : Category} : c.next = none → Leads tree c [c]
  | step {c s : Category} {path : List Category} : c.next = some s.name →
      tree.category? s.name = some s → Leads tree s path → c.name ∉ path.map (·.name) →
      Leads tree c (c :: path)

variable {tree : RuleTree}

namespace Leads

theorem head_mem {c : Category} {path : List Category} (h : tree.Leads c path) : c ∈ path := by
  cases h with
  | last _ => exact List.mem_singleton_self c
  | step _ _ _ _ => exact List.mem_cons_self

theorem nodup {c : Category} {path : List Category} (h : tree.Leads c path) :
    (path.map (·.name)).Nodup := by
  induction h with
  | last _ => exact List.nodup_singleton _
  | step _ _ _ fresh ih => exact List.nodup_cons.2 ⟨fresh, ih⟩

/-- The walk is in the tree if it begins there. -/
theorem known {c : Category} {path : List Category} (h : tree.Leads c path)
    (first : tree.category? c.name = some c) : ∀ x ∈ path, tree.category? x.name = some x := by
  induction h with
  | last _ =>
    intro x hx
    rwa [List.mem_singleton.1 hx]
  | step _ found _ _ ih =>
    intro x hx
    rcases List.mem_cons.1 hx with rfl | later
    · exact first
    · exact ih found x later

/-- A walk holds the successors of its categories, and never comes back to where it began. -/
theorem next_mem {c : Category} {path : List Category} (h : tree.Leads c path) {x y : Category}
    (hx : x ∈ path) (next : x.next = some y.name) (found : tree.category? y.name = some y) :
    y ∈ path ∧ y ≠ c := by
  induction h with
  | last final =>
    rw [List.mem_singleton.1 hx, final] at next
    cases next
  | @step c s path link known rest fresh ih =>
    rcases List.mem_cons.1 hx with rfl | later
    · have same : s.name = y.name := Option.some.inj (link.symm.trans next)
      rw [same, found] at known
      obtain rfl := Option.some.inj known
      refine ⟨List.mem_cons_of_mem _ rest.head_mem, ?_⟩
      rintro rfl
      exact fresh (List.mem_map_of_mem rest.head_mem)
    · have inside := (ih later).1
      refine ⟨List.mem_cons_of_mem _ inside, ?_⟩
      rintro rfl
      exact fresh (List.mem_map_of_mem inside)

theorem eq_cons {c : Category} {path : List Category} (h : tree.Leads c path) :
    ∃ rest, path = c :: rest := by
  cases h with
  | last _ => exact ⟨[], rfl⟩
  | @step _ _ path _ _ _ _ => exact ⟨path, rfl⟩

/-- The rest of a walk from one of its categories on is a walk. -/
theorem suffix {c x : Category} {before rest : List Category}
    (h : tree.Leads c (before ++ x :: rest)) : tree.Leads x (x :: rest) := by
  induction before generalizing c with
  | nil =>
    obtain ⟨_, same⟩ := h.eq_cons
    exact (List.cons.inj same).1 ▸ h
  | cons first before ih =>
    generalize path : first :: before ++ x :: rest = whole at h
    cases h with
    | last _ => simp at path
    | step _ _ leads _ => exact ih ((List.cons.inj path).2 ▸ leads)

/-- What successors agree on, all categories of a walk agree on. -/
theorem agree {β : Type} {f : Category → β} {c : Category} {path : List Category}
    (h : tree.Leads c path) (top : tree.category? c.name = some c)
    (step : ∀ a ∈ tree.all, ∀ b ∈ tree.all, a.next = some b.name → f a = f b) :
    ∀ x ∈ path, f x = f c := by
  induction h with
  | last _ =>
    intro x hx
    rw [List.mem_singleton.1 hx]
  | @step c s path link known rest fresh ih =>
    intro x hx
    rcases List.mem_cons.1 hx with rfl | later
    · rfl
    · rw [ih known x later]
      exact (step c (category?_mem top) s (category?_mem known) link).symm

/-- Each category of a walk names the one behind it. -/
theorem next_eq {c x y : Category} {before rest : List Category}
    (h : tree.Leads c (before ++ x :: y :: rest)) : x.next = some y.name := by
  cases h.suffix with
  | step link _ leads _ =>
    obtain ⟨_, same⟩ := leads.eq_cons
    rw [link, (List.cons.inj same).1]

end Leads

theorem follow_unknown {visited : List CategoryName} {c : Category} {next : CategoryName}
    (link : c.next = some next) (unknown : tree.category? next = none) :
    tree.follow visited c = ⟨[c], .unknown c next⟩ := by
  rw [follow]
  split
  · next last => simp [link] at last
  · next name named =>
    obtain rfl := Option.some.inj (link.symm.trans named)
    split
    · rfl
    · next found => simp [unknown] at found

theorem follow_known {visited : List CategoryName} {c s : Category} {next : CategoryName}
    (link : c.next = some next) (known : tree.category? next = some s) :
    tree.follow visited c =
      if s.name ∈ visited then ⟨[c], .revisits s⟩
      else ⟨c :: (tree.follow (s.name :: visited) s).categories,
        (tree.follow (s.name :: visited) s).ending⟩ := by
  rw [follow]
  split
  · next last => simp [link] at last
  · next name named =>
    obtain rfl := Option.some.inj (link.symm.trans named)
    split
    · next unknown => simp [known] at unknown
    · next found =>
      obtain rfl := Option.some.inj (known.symm.trans found)
      split <;> rfl

/-- A walk halts at its first category, which it counts as complete if nothing is named there, or goes on with
the walk from a successor that is new. -/
@[elab_as_elim]
theorem follow_induct {motive : List CategoryName → Category → Prop}
    (halt : ∀ visited c ending, tree.follow visited c = ⟨[c], ending⟩ →
      (ending = .complete ↔ c.next = none) → motive visited c)
    (step : ∀ visited c s next, c.next = some next → tree.category? next = some s → s.name ∉ visited →
      tree.follow visited c = ⟨c :: (tree.follow (s.name :: visited) s).categories,
        (tree.follow (s.name :: visited) s).ending⟩ → motive (s.name :: visited) s → motive visited c)
    (visited : List CategoryName) (c : Category) : motive visited c := by
  induction visited, c using follow.induct tree with
  | case1 visited c last => exact halt visited c .complete (by rw [follow, last]) (by simp [last])
  | case2 visited c next link unknown =>
    exact halt visited c _ (follow_unknown link unknown) (by simp [link])
  | case3 visited c next link s known old =>
    exact halt visited c (.revisits s) (by rw [follow_known link known, if_pos old]) (by simp [link])
  | case4 visited c next link s known fresh ih =>
    exact step visited c s next link known fresh (by rw [follow_known link known, if_neg fresh]) ih

theorem follow_mem {visited : List CategoryName} {c x : Category}
    (h : x ∈ (tree.follow visited c).categories) : x = c ∨ x ∈ tree.all := by
  induction visited, c using tree.follow_induct with
  | halt visited c ending halts _ =>
    rw [halts] at h
    exact .inl (List.mem_singleton.1 h)
  | step visited c s next _ known _ goes ih =>
    rw [goes] at h
    rcases List.mem_cons.1 h with here | later
    · exact .inl here
    · rcases ih later with rfl | inside
      · exact .inr (category?_mem known)
      · exact .inr inside

/-- A walk that meets a category without a successor ends there. -/
theorem follow_last {visited : List CategoryName} {c x : Category}
    (h : x ∈ (tree.follow visited c).categories) (last : x.next = none) :
    (tree.follow visited c).ending = .complete := by
  induction visited, c using tree.follow_induct with
  | halt visited c ending halts complete =>
    rw [halts] at h ⊢
    exact complete.2 (List.mem_singleton.1 h ▸ last)
  | step visited c s next link _ _ goes ih =>
    rw [goes] at h ⊢
    rcases List.mem_cons.1 h with rfl | later
    · rw [link] at last
      cases last
    · exact ih later

/-- Behind where it begins, a walk meets no name that was visited before it. -/
theorem follow_fresh {visited : List CategoryName} {c x : Category}
    (h : x ∈ (tree.follow visited c).categories) : x = c ∨ x.name ∉ visited := by
  induction visited, c using tree.follow_induct with
  | halt visited c ending halts _ =>
    rw [halts] at h
    exact .inl (List.mem_singleton.1 h)
  | step visited c s next _ _ fresh goes ih =>
    rw [goes] at h
    rcases List.mem_cons.1 h with here | later
    · exact .inl here
    · rcases ih later with rfl | unseen
      · exact .inr fresh
      · exact .inr fun old => unseen (List.mem_cons_of_mem _ old)

/-- A walk that begins with a new name meets no visited one. -/
theorem not_mem_follow {visited : List CategoryName} {s : Category} (fresh : s.name ∉ visited)
    {name : CategoryName} (seen : name ∈ visited) :
    name ∉ (tree.follow (s.name :: visited) s).categories.map (·.name) := by
  intro back
  obtain ⟨x, hx, rfl⟩ := List.mem_map.1 back
  rcases follow_fresh hx with rfl | unseen
  · exact fresh seen
  · exact unseen (List.mem_cons_of_mem _ seen)

/-- A walk meets no name twice. -/
theorem follow_nodup {visited : List CategoryName} {c : Category} (seen : c.name ∈ visited) :
    ((tree.follow visited c).categories.map (·.name)).Nodup := by
  induction visited, c using tree.follow_induct with
  | halt visited c ending halts _ =>
    rw [halts]
    exact List.nodup_singleton _
  | step visited c s next _ _ fresh goes ih =>
    rw [goes]
    exact List.nodup_cons.2 ⟨not_mem_follow fresh seen, ih List.mem_cons_self⟩

/-- A walk that comes to its end leads there. -/
theorem follow_complete (keyed : tree.Keyed) {visited : List CategoryName} {c : Category}
    (h : (tree.follow visited c).ending = .complete) (seen : c.name ∈ visited) :
    tree.Leads c (tree.follow visited c).categories := by
  induction visited, c using tree.follow_induct with
  | halt visited c ending halts complete =>
    rw [halts] at h ⊢
    exact .last (complete.1 h)
  | step visited c s next link known fresh goes ih =>
    rw [goes] at h ⊢
    have named : s.name = next := keyed next s known
    subst named
    exact .step link known (ih h List.mem_cons_self) (not_mem_follow fresh seen)

theorem headFrom_none {visited : List CategoryName} {c : Category}
    (h : tree.predecessor? c.name = none) : tree.headFrom visited c = c := by
  rw [headFrom]
  split
  · rfl
  · next found => simp [h] at found

theorem headFrom_some {visited : List CategoryName} {c previous : Category}
    (h : tree.predecessor? c.name = some previous) :
    tree.headFrom visited c =
      if previous.name ∈ visited then c else tree.headFrom (previous.name :: visited) previous := by
  rw [headFrom]
  split
  · next first => simp [h] at first
  · next found =>
    obtain rfl := Option.some.inj (h.symm.trans found)
    split <;> rfl

theorem headFrom_mem {visited : List CategoryName} {c : Category} (h : c ∈ tree.all) :
    tree.headFrom visited c ∈ tree.all := by
  induction visited, c using headFrom.induct tree with
  | case1 visited c first => rwa [headFrom_none first]
  | case2 visited c previous found old => rwa [headFrom_some found, if_pos old]
  | case3 visited c previous found fresh ih =>
    rw [headFrom_some found, if_neg fresh]
    exact ih (predecessor?_mem found)

/-- Going back to the head, every name met stands on each complete walk from there, and the walk ends
where nothing comes before. -/
theorem headFrom_leads (keyed : tree.Keyed) {visited : List CategoryName} {c : Category}
    (known : tree.category? c.name = some c)
    (met : ∀ name ∈ visited, ∀ path, tree.Leads c path → ∃ x ∈ path, x.name = name)
    {path : List Category} (h : tree.Leads (tree.headFrom visited c) path) :
    tree.category? (tree.headFrom visited c).name = some (tree.headFrom visited c) ∧
      tree.predecessor? (tree.headFrom visited c).name = none ∧
      ∀ name ∈ visited, ∃ x ∈ path, x.name = name := by
  induction visited, c using headFrom.induct tree with
  | case1 visited c first =>
    rw [headFrom_none first] at h ⊢
    exact ⟨known, first, fun name seen => met name seen path h⟩
  | case2 visited c previous found old =>
    -- A predecessor among the names met would close a cycle, which no complete walk has.
    rw [headFrom_some found, if_pos old] at h
    have link : previous.next = some c.name := by simpa using List.find?_some found
    obtain ⟨x, hx, same⟩ := met previous.name old path h
    have here := h.known known x hx
    rw [same, keyed.known (predecessor?_mem found)] at here
    obtain rfl := Option.some.inj here
    exact absurd rfl (h.next_mem hx link known).2
  | case3 visited c previous found fresh ih =>
    rw [headFrom_some found, if_neg fresh] at h ⊢
    have link : previous.next = some c.name := by simpa using List.find?_some found
    have before := keyed.known (predecessor?_mem found)
    have further (path : List Category) (leads : tree.Leads previous path) :
        ∃ rest, path = previous :: rest ∧ tree.Leads c rest := by
      cases leads with
      | last final =>
        rw [final] at link
        cases link
      | @step _ s rest next same leads _ =>
        rw [next] at link
        rw [Option.some.inj link, known] at same
        exact ⟨rest, rfl, Option.some.inj same ▸ leads⟩
    obtain ⟨top, first, all⟩ := ih before (fun name seen path leads => by
      obtain ⟨rest, rfl, onward⟩ := further path leads
      rcases List.mem_cons.1 seen with rfl | old
      · exact ⟨previous, List.mem_cons_self, rfl⟩
      · obtain ⟨x, hx, same⟩ := met name old rest onward
        exact ⟨x, List.mem_cons_of_mem _ hx, same⟩) h
    exact ⟨top, first, fun name seen => all name (List.mem_cons_of_mem _ seen)⟩

/-- The head of a category whose chain comes to its end: the category is on the walk from there, and
nothing comes before it. -/
theorem head_leads (keyed : tree.Keyed) {c : Category} (known : tree.category? c.name = some c)
    (h : (tree.pathFrom (tree.head c)).ending = .complete) :
    tree.Leads (tree.head c) (tree.pathFrom (tree.head c)).categories ∧
      tree.category? (tree.head c).name = some (tree.head c) ∧
      tree.predecessor? (tree.head c).name = none ∧
      c ∈ (tree.pathFrom (tree.head c)).categories := by
  have leads := follow_complete keyed h List.mem_cons_self
  have met (name : CategoryName) (seen : name ∈ [c.name]) (path : List Category)
      (leads : tree.Leads c path) : ∃ x ∈ path, x.name = name :=
    ⟨c, leads.head_mem, (List.mem_singleton.1 seen).symm⟩
  obtain ⟨top, first, met⟩ := headFrom_leads keyed known met leads
  obtain ⟨x, hx, same⟩ := met c.name List.mem_cons_self
  have here := leads.known top x hx
  rw [same, known] at here
  obtain rfl := Option.some.inj here
  exact ⟨leads, top, first, hx⟩

/-- Going back along a walk whose first category has no predecessor ends at that category. -/
theorem headFrom_of_leads (unshared : tree.Unshared) {first : Category} {path : List Category}
    (leads : tree.Leads first path) (top : tree.category? first.name = some first)
    (alone : tree.predecessor? first.name = none) {before : List Category} {c : Category}
    {rest : List Category} (split : path = before ++ c :: rest) {visited : List CategoryName}
    (new : ∀ x ∈ before, x.name ∉ visited) : tree.headFrom visited c = first := by
  induction before using List.reverseRecOn generalizing c rest visited with
  | nil =>
    obtain ⟨_, same⟩ := leads.eq_cons
    obtain rfl : first = c := (List.cons.inj (same.symm.trans split)).1
    exact headFrom_none alone
  | append_singleton before y ih =>
    rw [List.append_assoc, List.singleton_append] at split
    have link : y.next = some c.name := (split ▸ leads).next_eq
    have here (x : Category) (hx : x ∈ path) : x ∈ tree.all := category?_mem (leads.known top x hx)
    have inside : y ∈ path := by
      rw [split]
      exact List.mem_append_right _ List.mem_cons_self
    have found : tree.predecessor? c.name = some y := by
      cases found : tree.predecessor? c.name with
      | none =>
        have := List.find?_eq_none.1 found y (here y inside)
        simp [link] at this
      | some z =>
        have next : z.next = some c.name := by simpa using List.find?_some found
        rw [unshared z (predecessor?_mem found) y (here y inside) c.name next link]
    rw [headFrom_some found, if_neg (new y (by simp))]
    apply ih split
    intro x hx
    have distinct := leads.nodup
    rw [split, List.map_append, List.map_cons, List.nodup_append] at distinct
    rw [List.mem_cons, not_or]
    exact ⟨distinct.2.2 _ (List.mem_map_of_mem hx) _ List.mem_cons_self,
      new x (List.mem_append_left _ hx)⟩

/-- All categories of a complete chain go back to its head. -/
theorem head_eq_of_leads (unshared : tree.Unshared) {first : Category} {path : List Category}
    (leads : tree.Leads first path) (top : tree.category? first.name = some first)
    (alone : tree.predecessor? first.name = none) : ∀ c ∈ path, tree.head c = first := by
  intro c hc
  obtain ⟨before, rest, split⟩ := List.append_of_mem hc
  apply headFrom_of_leads unshared leads top alone split
  intro x hx
  have distinct := leads.nodup
  rw [split, List.map_append, List.map_cons, List.nodup_append] at distinct
  rw [List.mem_singleton]
  exact distinct.2.2 _ (List.mem_map_of_mem hx) _ List.mem_cons_self

end RuleTree

end Entitlement
