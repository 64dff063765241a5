import Mathlib.Data.List.Nodup
import Entitlement.Rule.Category

/-!
Which replacing code fits a residual. The search keeps the better of two candidates, so it finds one with
the largest positive amount that fits, if any amount does. Where no two codes share an amount there is one
best fit, whatever the order in which the codes are listed.
-/

namespace Entitlement

namespace Completion

/-- Keeping the better of two candidates picks one of them, and none has a greater amount. -/
theorem foldl_better {l : List ReplacingCode} {best : Option ReplacingCode} {r : ReplacingCode}
    (h : l.foldl better best = some r) :
    (best = some r ∨ r ∈ l) ∧ (∀ b, best = some b → b.amount ≤ r.amount) ∧
      ∀ s ∈ l, s.amount ≤ r.amount := by
  induction l generalizing best with
  | nil =>
    cases h
    exact ⟨.inl rfl, fun b hb => Option.some.inj hb ▸ Int.le_refl _, by simp⟩
  | cons first rest ih =>
      obtain ⟨chosen, above, behind⟩ := ih h
      cases best with
      | none =>
        refine ⟨.inr ?_, by simp, List.forall_mem_cons.2 ⟨above _ rfl, behind⟩⟩
        rcases chosen with taken | later
        · cases taken
          exact List.mem_cons_self
        · exact List.mem_cons_of_mem _ later
      | some b =>
        simp only [better] at chosen above
        split at above
        · next less =>
          rw [if_pos less] at chosen
          have kept := above b rfl
          refine ⟨chosen.imp_right (List.mem_cons_of_mem _), ?_, List.forall_mem_cons.2 ⟨?_, behind⟩⟩
          · rintro _ ⟨⟩
            exact kept
          · exact Int.le_trans (Int.le_of_lt less) kept
        · next less =>
          rw [if_neg less] at chosen
          have kept := above first rfl
          refine ⟨.inr ?_, ?_, List.forall_mem_cons.2 ⟨kept, behind⟩⟩
          · rcases chosen with taken | later
            · cases taken
              exact List.mem_cons_self
            · exact List.mem_cons_of_mem _ later
          · rintro _ ⟨⟩
            exact Int.le_trans (Int.not_lt.1 less) kept

/-- A code that fits is one of the replacing codes. -/
theorem replaces_of_largestFitting {completion : Completion} {residual : Amount} {r : ReplacingCode}
    (h : completion.largestFitting residual = some r) : completion.isReplacing r.code = true := by
  rcases (foldl_better h).1 with absurd | mem
  · cases absurd
  · exact List.any_eq_true.2 ⟨r, (List.mem_filter.1 mem).1, by simp⟩

/-- The replacing code with the largest positive amount not above what has been reached. -/
structure BestFit (completion : Completion) (reached : Int) (r : ReplacingCode) : Prop where
  listed : r ∈ completion.replacing
  positive : 0 < r.amount.val
  fits : r.amount.val ≤ reached
  largest {s : ReplacingCode} : s ∈ completion.replacing → s.amount.val ≤ reached →
    s.amount.val ≤ r.amount.val

theorem mem_fitting {completion : Completion} {residual : Amount} {r : ReplacingCode} :
    (r ∈ completion.replacing.filter fun r => 0 < r.amount && r.amount ≤ residual) ↔
      r ∈ completion.replacing ∧ 0 < r.amount.val ∧ r.amount.val ≤ residual.val := by
  simp [Amount.lt_def, Amount.le_def]

theorem largestFitting_eq_none_iff {completion : Completion} {residual : Amount} :
    completion.largestFitting residual = none ↔
      ∀ r ∈ completion.replacing, 0 < r.amount.val → residual.val < r.amount.val := by
  constructor
  · intro none r mem positive
    refine Int.not_le.1 fun fits => ?_
    have present := mem_fitting.2 ⟨mem, positive, fits⟩
    cases candidates : completion.replacing.filter fun r => 0 < r.amount && r.amount ≤ residual with
    | nil =>
      rw [candidates] at present
      exact List.not_mem_nil present
    | cons first rest =>
      have kept (l : List ReplacingCode) (b : ReplacingCode) : (l.foldl better (some b)).isSome := by
        induction l generalizing b with
        | nil => rfl
        | cons s l ih =>
            rw [List.foldl_cons, better]
            split
            · exact ih b
            · exact ih s
      rw [largestFitting, candidates] at none
      have := kept rest first
      rw [show rest.foldl better (some first) = .none from none] at this
      cases this
  · intro small
    have empty : (completion.replacing.filter fun r => 0 < r.amount && r.amount ≤ residual) = [] := by
      refine List.eq_nil_iff_forall_not_mem.2 fun r mem => ?_
      obtain ⟨mem, positive, fits⟩ := mem_fitting.1 mem
      exact Int.not_le.2 (small r mem positive) fits
    rw [largestFitting, empty]
    rfl

/-- Where no two codes share an amount, the code that is found is the best fit and no other is. -/
theorem largestFitting_eq_some_iff {completion : Completion}
    (apart : (completion.replacing.map (·.amount)).Nodup) {residual : Amount} {r : ReplacingCode} :
    completion.largestFitting residual = some r ↔ completion.BestFit residual.val r := by
  have best {r : ReplacingCode} (h : completion.largestFitting residual = some r) :
      completion.BestFit residual.val r := by
    obtain ⟨chosen, -, largest⟩ := foldl_better h
    obtain ⟨listed, positive, fits⟩ := mem_fitting.1 (chosen.resolve_left (by simp))
    refine ⟨listed, positive, fits, fun {s} mem below => ?_⟩
    by_cases counted : 0 < s.amount.val
    · exact largest s (mem_fitting.2 ⟨mem, counted, below⟩)
    · omega
  refine ⟨best, fun fit => ?_⟩
  cases found : completion.largestFitting residual with
  | none => exact absurd fit.fits (Int.not_le.2 (largestFitting_eq_none_iff.1 found r fit.listed fit.positive))
  | some s =>
    have other := best found
    have same := Amount.ext (Int.le_antisymm (fit.largest other.listed other.fits)
      (other.largest fit.listed fit.fits))
    exact congrArg some (List.inj_on_of_nodup_map apart other.listed fit.listed same)

/-- The order in which the codes are listed has no part in the best fit. -/
theorem largestFitting_perm {c c' : Completion} (apart : (c.replacing.map (·.amount)).Nodup)
    (listed : c'.replacing.Perm c.replacing) : c'.largestFitting = c.largestFitting := by
  funext residual
  refine Option.ext fun r => ?_
  rw [largestFitting_eq_some_iff apart,
    largestFitting_eq_some_iff ((listed.map _).nodup_iff.2 apart)]
  constructor
  · exact fun fit => ⟨listed.mem_iff.1 fit.listed, fit.positive, fit.fits,
      fun mem => fit.largest (listed.mem_iff.2 mem)⟩
  · exact fun fit => ⟨listed.mem_iff.2 fit.listed, fit.positive, fit.fits,
      fun mem => fit.largest (listed.mem_iff.1 mem)⟩

end Completion

end Entitlement
