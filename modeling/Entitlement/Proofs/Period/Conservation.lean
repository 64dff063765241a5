import Mathlib.Algebra.Order.BigOperators.Group.List
import Mathlib.Algebra.Order.Ring.Int
import Entitlement.Proofs.Period.Changes

/-!
The walk over the days conserves amounts. As long as nothing is negative and everything fits, what a
period begins with and what its days complete is at each judged day what has been required so far and
the residual that is left. What the walk decides depends on neither the order of the codes nor that of the
completions of a day.
-/

namespace Entitlement

open OrderedMap

namespace Amount

/-- Amounts that are not negative and fit together are summed exactly. -/
theorem sum_val_of_fits {l : List Amount} (nonneg : ∀ a ∈ l, 0 ≤ a.val)
    (fits : (l.map (·.val)).sum ≤ 0x7fffffffffffffff) : (sum l).val = (l.map (·.val)).sum := by
  have added (l : List Amount) (start : Amount) (nonneg : ∀ a ∈ l, 0 ≤ a.val) (positive : 0 ≤ start.val)
      (fits : start.val + (l.map (·.val)).sum ≤ 0x7fffffffffffffff) :
      (l.foldl (· + ·) start).val = start.val + (l.map (·.val)).sum := by
    induction l generalizing start with
    | nil => simp
    | cons a rest ih =>
        obtain ⟨first, others⟩ := List.forall_mem_cons.1 nonneg
        have rest_nonneg : 0 ≤ (rest.map (·.val)).sum := List.sum_nonneg (by simpa using others)
        rw [List.map_cons, List.sum_cons] at fits ⊢
        have exact : (start + a).val = start.val + a.val := by
          rw [add_val]
          omega
        rw [List.foldl_cons, ih _ others (by omega) (by omega), exact, Int.add_assoc]
  have fromZero := added l 0 nonneg (Int.le_refl _) (by rw [zero_val, Int.zero_add]; exact fits)
  rw [zero_val, Int.zero_add] at fromZero
  exact fromZero

end Amount

def PeriodDay.completedExactly (day : PeriodDay) : Int :=
  (day.completions.map (·.2.val)).sum

namespace PeriodDay

variable {day : PeriodDay} (nonneg : ∀ c ∈ day.completions, 0 ≤ c.2.val)

include nonneg

theorem completedExactly_nonneg : 0 ≤ day.completedExactly :=
  List.sum_nonneg (List.forall_mem_map.2 nonneg)

theorem completed_val (fits : day.completedExactly ≤ 0x7fffffffffffffff) :
    day.completed.val = day.completedExactly := by
  have sum := Amount.sum_val_of_fits (l := day.completions.map (·.2)) (List.forall_mem_map.2 nonneg)
    (by rw [List.map_map]; exact fits)
  rw [List.map_map] at sum
  exact sum

end PeriodDay

def completedTotal (days : List (Date × PeriodDay)) : Int :=
  (days.map (·.2.completedExactly)).sum

def requiredTotal (days : List (Date × PeriodDay)) : Int :=
  (days.map fun e => e.2.required.elim 0 (·.amount.val)).sum

namespace Period

section Walk

variable {p : Period} {completion : Completion}

/-- A day that is not judged passes the residual on. -/
theorem settleDay_passes (completion : Completion) {d : Date} {day : PeriodDay} (agrees : p.Agrees d day)
    (spared : p.judges d = false) (residual : Amount) :
    (p.settleDay completion residual d day).1 = residual := by
  rcases p.settleDay_cases completion residual d day with ⟨-, h⟩ | ⟨-, -, h⟩ | ⟨late, sound, -⟩
  · rw [h]
  · rw [h]
  · rw [judges, ← agrees.prior, late, sound] at spared
    cases spared

/-- The days that are not judged may be left out of a walk. -/
theorem walk_judged {l : List (Date × PeriodDay)} (agrees : ∀ e ∈ l, p.Agrees e.1 e.2)
    (residual : Amount) :
    scanList (p.settleDay completion) residual (l.filter fun e => p.judges e.1) =
      ((scanList (p.settleDay completion) residual l).1,
        (scanList (p.settleDay completion) residual l).2.filter fun e => p.judges e.1) := by
  induction l generalizing residual with
  | nil => rfl
  | cons first rest ih =>
      obtain ⟨d, day⟩ := first
      obtain ⟨here, others⟩ := List.forall_mem_cons.1 agrees
      cases judged : p.judges d with
      | true => simp only [scanList, List.filter_cons, judged, if_true, ih others]
      | false =>
        have passed := settleDay_passes completion here judged residual
        simp only [scanList, List.filter_cons, judged, if_false, Bool.false_eq_true, ih others, passed]

/-- A judged day is completed, and what fits is required and taken off. -/
theorem settleDay_of_judged (completion : Completion) {d : Date} {day : PeriodDay}
    (agrees : p.Agrees d day) (judged : p.judges d = true) (residual : Amount) :
    ∃ after, after = ((completion.largestFitting (residual + day.completed)).elim
        (residual + day.completed) fun r => residual + day.completed - r.amount) ∧
      p.settleDay completion residual d day = (after, { day with
        required := completion.largestFitting (residual + day.completed)
        residualAfter := after }) := by
  rcases p.settleDay_cases completion residual d day with ⟨prior, -⟩ | ⟨-, compromised, -⟩ | ⟨-, -, found⟩
  · simp [judges, ← agrees.prior, prior] at judged
  · simp [judges, compromised] at judged
  · exact found

/-- The days judged after settling come from a walk over the judged days alone. -/
theorem judged_settle (sound : p.Sound) (asks : p.category.completion = some completion) :
    p.settle.judged = (scanList (p.settleDay completion) p.initialResidual p.judged).2 := by
  have agrees : ∀ e ∈ p.days.toList, p.Agrees e.1 e.2 := fun e he => sound.agrees (day?_eq_some.2 he)
  rw [judged, judges_settle, settle_days asks]
  exact (congrArg Prod.snd (walk_judged agrees p.initialResidual)).symm

/-- What becomes of a judged day and of the residual it is reached with: the completions are added, and what
is required is taken off. -/
structure Judgement (completion : Completion) (residual : Amount) (day : PeriodDay) (reached : Amount)
    (out : Amount × PeriodDay) : Prop where
  sum : reached.val = residual.val + day.completedExactly
  required : out.2.required = completion.largestFitting reached
  after : out.2.residualAfter = out.1
  taken : 0 ≤ out.2.required.elim 0 (·.amount.val)
  balance : out.2.required.elim 0 (·.amount.val) + out.1.val = reached.val
  nonneg : 0 ≤ out.1.val

/-- Judged days and a residual to begin with that fit together: nothing is negative, and the exact sum is an
amount. -/
structure Fits (p : Period) (residual : Amount) (l : List (Date × PeriodDay)) : Prop where
  judged : ∀ e ∈ l, p.Agrees e.1 e.2 ∧ p.judges e.1 = true
  nonneg : ∀ e ∈ l, ∀ c ∈ e.2.completions, 0 ≤ c.2.val
  positive : 0 ≤ residual.val
  fits : residual.val + completedTotal l ≤ 0x7fffffffffffffff

theorem completedTotal_nonneg {l : List (Date × PeriodDay)}
    (nonneg : ∀ e ∈ l, ∀ c ∈ e.2.completions, 0 ≤ c.2.val) : 0 ≤ completedTotal l :=
  List.sum_nonneg (List.forall_mem_map.2 fun e he => e.2.completedExactly_nonneg (nonneg e he))

theorem completedTotal_cons (e : Date × PeriodDay) (l : List (Date × PeriodDay)) :
    completedTotal (e :: l) = e.2.completedExactly + completedTotal l := by
  rw [completedTotal, List.map_cons, List.sum_cons, completedTotal]

theorem requiredTotal_cons (e : Date × PeriodDay) (l : List (Date × PeriodDay)) :
    requiredTotal (e :: l) = e.2.required.elim 0 (·.amount.val) + requiredTotal l := by
  rw [requiredTotal, List.map_cons, List.sum_cons, requiredTotal]

/-- A judged day is judged in exact amounts, and what comes behind it fits with the residual it leaves. -/
theorem fits_cons (completion : Completion) {residual : Amount} {d : Date} {day : PeriodDay}
    {rest : List (Date × PeriodDay)} (h : p.Fits residual ((d, day) :: rest)) :
    (∃ reached, Judgement completion residual day reached (p.settleDay completion residual d day)) ∧
      p.Fits (p.settleDay completion residual d day).1 rest := by
  obtain ⟨⟨agree, judge⟩, judged⟩ := List.forall_mem_cons.1 h.judged
  obtain ⟨here, nonneg⟩ := List.forall_mem_cons.1 h.nonneg
  have positive := h.positive
  have fits := h.fits
  rw [completedTotal_cons] at fits
  dsimp only at agree judge here fits
  have more := day.completedExactly_nonneg here
  have later := completedTotal_nonneg nonneg
  have exactly := day.completed_val here (by omega)
  have reached : (residual + day.completed).val = residual.val + day.completedExactly := by
    rw [Amount.add_val, exactly]
    omega
  have judgement : Judgement completion residual day (residual + day.completed)
      (p.settleDay completion residual d day) := by
    obtain ⟨after, hafter, h⟩ := settleDay_of_judged completion agree judge residual
    rw [h]
    cases found : completion.largestFitting (residual + day.completed) with
    | none =>
      rw [found] at hafter
      subst hafter
      refine ⟨reached, found.symm, rfl, Int.le_refl _, Int.zero_add _, ?_⟩
      simp only [Option.elim_none]
      omega
    | some r =>
      obtain ⟨-, above, within⟩ :=
        Completion.mem_fitting.1 ((Completion.foldl_better found).1.resolve_left (by simp))
      rw [found] at hafter
      subst hafter
      refine ⟨reached, found.symm, rfl, Int.le_of_lt above, ?_, ?_⟩
      · simp only [Option.elim_some, Amount.sub_val]
        omega
      · simp only [Option.elim_some, Amount.sub_val]
        omega
  refine ⟨⟨_, judgement⟩, judged, nonneg, judgement.nonneg, ?_⟩
  have := judgement.balance
  have := judgement.taken
  omega

/-- Along judged days what the walk begins with and what they complete is what they require and what is left,
and that fits with the days behind them. -/
theorem fits_append (completion : Completion) {first rest : List (Date × PeriodDay)} {residual : Amount}
    (h : p.Fits residual (first ++ rest)) :
    residual.val + completedTotal first =
        requiredTotal (scanList (p.settleDay completion) residual first).2 +
          (scanList (p.settleDay completion) residual first).1.val ∧
      p.Fits (scanList (p.settleDay completion) residual first).1 rest := by
  induction first generalizing residual with
  | nil => exact ⟨by simp [completedTotal, requiredTotal, scanList], h⟩
  | cons e first ih =>
      obtain ⟨d, day⟩ := e
      obtain ⟨⟨reached, judgement⟩, behind⟩ := fits_cons completion h
      obtain ⟨conserved, left⟩ := ih behind
      have := judgement.sum
      have := judgement.balance
      simp only [scanList, completedTotal_cons, requiredTotal_cons]
      exact ⟨by omega, left⟩

theorem walk_completions (l : List (Date × PeriodDay)) (residual : Amount) :
    (scanList (p.settleDay completion) residual l).2.map (fun e => (e.1, e.2.completions)) =
      l.map fun e => (e.1, e.2.completions) := by
  induction l generalizing residual with
  | nil => rfl
  | cons first rest ih =>
      simp only [scanList, List.map_cons, ih, (p.settleDay_same completion residual _ _).completions]

/-- The sum that is reached on a judged day: what the period begins with and all that is completed up to the
day, less all that was required before. -/
def reached (initial : Int) (before : List (Date × PeriodDay)) (e : Date × PeriodDay) : Int :=
  initial + completedTotal (before ++ [e]) - requiredTotal before

/-- A judged day behind others, in exact amounts: it requires the best fit and only that, and no amount gets
lost or comes in. -/
structure Balanced (completion : Completion) (initial : Int) (before : List (Date × PeriodDay))
    (e : Date × PeriodDay) : Prop where
  required {r : ReplacingCode} :
    e.2.required = some r ↔ completion.BestFit (reached initial before e) r
  absent : e.2.required = none ↔
    ∀ r ∈ completion.replacing, 0 < r.amount.val → reached initial before e < r.amount.val
  conserved : initial + completedTotal (before ++ [e]) =
    requiredTotal (before ++ [e]) + e.2.residualAfter.val
  nonneg : 0 ≤ e.2.residualAfter.val

theorem completedTotal_eq (l : List (Date × PeriodDay)) : completedTotal l =
    ((l.map fun e => (e.1, e.2.completions)).map fun e => (e.2.map (·.2.val)).sum).sum := by
  rw [List.map_map]
  rfl

theorem completedTotal_walk (l : List (Date × PeriodDay)) (residual : Amount) :
    completedTotal (scanList (p.settleDay completion) residual l).2 = completedTotal l := by
  rw [completedTotal_eq, walk_completions, ← completedTotal_eq]

theorem completedTotal_append (l₁ l₂ : List (Date × PeriodDay)) :
    completedTotal (l₁ ++ l₂) = completedTotal l₁ + completedTotal l₂ := by
  rw [completedTotal, List.map_append, List.sum_append, completedTotal, completedTotal]

theorem requiredTotal_append (l₁ l₂ : List (Date × PeriodDay)) :
    requiredTotal (l₁ ++ l₂) = requiredTotal l₁ + requiredTotal l₂ := by
  rw [requiredTotal, List.map_append, List.sum_append, requiredTotal, requiredTotal]

/-- Wherever a walk over judged days is cut, the day at the cut balances. -/
theorem balanced_of_walk (apart : (completion.replacing.map (·.amount)).Nodup)
    {l : List (Date × PeriodDay)} {residual : Amount} (h : p.Fits residual l)
    {before after : List (Date × PeriodDay)} {e : Date × PeriodDay}
    (cut : (scanList (p.settleDay completion) residual l).2 = before ++ e :: after) :
    Balanced completion residual.val before e := by
  obtain ⟨first, day, rest, rfl, rfl, image⟩ := scanList_split cut
  obtain ⟨conserved, behind⟩ := fits_append completion h
  obtain ⟨⟨sum, summed, required, after, -, balance, nonneg⟩, -⟩ :=
    fits_cons completion behind
  rw [← image] at required after balance
  have completed : e.2.completedExactly = day.completedExactly := by
    rw [image, PeriodDay.completedExactly, (p.settleDay_same completion _ _ _).completions]
    rfl
  have completedTotal : completedTotal ((scanList (p.settleDay completion) residual first).2 ++ [e]) =
      completedTotal first + day.completedExactly := by
    rw [completedTotal_append, completedTotal_walk, ← completed, completedTotal_cons]
    exact congrArg _ (Int.add_zero _)
  have requiredTotal : requiredTotal ((scanList (p.settleDay completion) residual first).2 ++ [e]) =
      requiredTotal (scanList (p.settleDay completion) residual first).2 +
        e.2.required.elim 0 (·.amount.val) := by
    rw [requiredTotal_append, requiredTotal_cons]
    exact congrArg _ (Int.add_zero _)
  have reached : reached residual.val (scanList (p.settleDay completion) residual first).2 e = sum.val := by
    rw [Period.reached, completedTotal]
    omega
  refine ⟨?_, ?_, ?_, ?_⟩
  · rw [reached, required]
    exact Completion.largestFitting_eq_some_iff apart
  · rw [reached, required]
    exact Completion.largestFitting_eq_none_iff
  · rw [completedTotal, requiredTotal, after]
    omega
  · rw [after]
    exact nonneg

/-- On a settled day the marks tell whether its date is judged. -/
theorem counts_settle (sound : p.Sound) (asks : p.category.completion = some completion) {d : Date}
    {day : PeriodDay} (hd : p.settle.day? d = some day) : counts day = p.judges d := by
  have agrees := sound.settle.agrees hd
  have prior : day.beforeInitialization = p.isPrior d := isPrior_settle p ▸ agrees.prior
  obtain ⟨residual, before, held, image⟩ := settle_day? asks hd
  rw [counts, judges, prior]
  rcases p.settleDay_cases completion residual d before with
    ⟨early, -⟩ | ⟨-, compromised, h⟩ | ⟨-, whole, -⟩
  · rw [← (sound.agrees held).prior, early, Bool.not_true, Bool.false_and, Bool.false_and]
  · rw [image, h, compromised]
  · have : day.compromised = false := Bool.eq_false_iff.2 fun marked => by
      rw [← isCompromisedOn_settle, agrees.compromised marked] at whole
      cases whole
    rw [this, whole]

/-- The final residual is that of the last judged day. -/
theorem finalResidual_of_judged (sound : p.Sound) (asks : p.category.completion = some completion) :
    p.settle.finalResidual =
      some (p.settle.judged.getLast?.elim p.initialResidual (·.2.residualAfter)) := by
  have category : p.settle.category = p.category := (terms_eq_iff.1 (terms_settle p)).1
  have counted : p.settle.days.values.filter counts = p.settle.judged.map (·.2) := by
    rw [values, List.filter_map, judged, judges_settle]
    exact congrArg _ (List.filter_congr fun e he => counts_settle sound asks (day?_eq_some.2 he))
  rw [finalResidual, category, asks, Option.map_some, initialResidual_of_terms (terms_settle p)]
  refine congrArg some ?_
  show ((p.settle.days.values.filter counts).getLast?).elim p.initialResidual (·.residualAfter) = _
  rw [counted, List.getLast?_map]
  cases p.settle.judged.getLast? with
  | none => rfl
  | some e => rfl

/-- A day that is not judged requires nothing. -/
theorem required_of_spared (sound : p.Sound) (asks : p.category.completion = some completion) {d : Date}
    {day : PeriodDay} (hd : p.settle.day? d = some day) (spared : p.judges d = false) :
    day.required = none := by
  have settled := sound.settle.agrees hd
  obtain ⟨residual, before, held, image⟩ := settle_day? asks hd
  have agrees := sound.agrees held
  rcases p.settleDay_cases completion residual d before with ⟨early, -⟩ | ⟨-, -, h⟩ | ⟨late, whole, -⟩
  · exact settled.idle (by rw [isPrior_settle, ← agrees.prior, early])
  · rw [image, h]
  · rw [judges, ← agrees.prior, late, whole] at spared
    cases spared

def outcome (p : Period) : List (Date × Option ReplacingCode × Amount) × Option Amount :=
  (p.judged.map fun e => (e.1, e.2.required, e.2.residualAfter), p.finalResidual)

/-- Walks over judged days that complete the same, with codes that fit the same, decide the same. -/
theorem walk_congr {q : Period} {other : Completion}
    (fitting : other.largestFitting = completion.largestFitting) {l l' : List (Date × PeriodDay)}
    (judged : ∀ e ∈ l, p.Agrees e.1 e.2 ∧ p.judges e.1 = true)
    (judged' : ∀ e ∈ l', q.Agrees e.1 e.2 ∧ q.judges e.1 = true)
    (same : List.Forall₂ (fun e e' => e.1 = e'.1 ∧ e.2.completed = e'.2.completed) l l')
    (residual : Amount) :
    (scanList (q.settleDay other) residual l').2.map (fun e => (e.1, e.2.required, e.2.residualAfter)) =
      (scanList (p.settleDay completion) residual l).2.map
        fun e => (e.1, e.2.required, e.2.residualAfter) := by
  induction same generalizing residual with
  | nil => rfl
  | @cons e e' _ _ here _ ih =>
      obtain ⟨d, day⟩ := e
      obtain ⟨d', day'⟩ := e'
      obtain ⟨rfl, completed⟩ := here
      obtain ⟨⟨agree, judge⟩, judged⟩ := List.forall_mem_cons.1 judged
      obtain ⟨⟨agree', judge'⟩, judged'⟩ := List.forall_mem_cons.1 judged'
      obtain ⟨after, hafter, h⟩ := settleDay_of_judged completion agree judge residual
      obtain ⟨after', hafter', h'⟩ := settleDay_of_judged other agree' judge' residual
      dsimp only at completed hafter h hafter' h'
      rw [fitting, ← completed, ← hafter] at hafter'
      subst hafter'
      simp only [scanList, List.map_cons, h', h, fitting, completed, ih judged judged']

end Walk

/-- One period is another rearranged: the codes are listed in another order, and so are the completions of
each judged day. -/
structure Rearranges (q p : Period) : Prop where
  replacing : ∃ other completion, q.category.completion = some other ∧
    p.category.completion = some completion ∧ other.replacing.Perm completion.replacing
  initial : q.initialResidual = p.initialResidual
  judged : List.Forall₂ (fun e e' : Date × PeriodDay => e.1 = e'.1 ∧
    (e.2.completions.map (·.2)).Perm (e'.2.completions.map (·.2))) p.judged q.judged

/-- Settling conserves amounts: the judged days keep their completions and balance, the residual at the end
is that of the last of them, and no other day requires anything. -/
structure Conserves (p : Period) (completion : Completion) : Prop where
  completions : p.settle.judged.map (fun e => (e.1, e.2.completions)) =
    p.judged.map fun e => (e.1, e.2.completions)
  balanced {before after : List (Date × PeriodDay)} {e : Date × PeriodDay} :
    p.settle.judged = before ++ e :: after → Balanced completion p.initialResidual.val before e
  final : p.settle.finalResidual =
    some (p.settle.judged.getLast?.elim p.initialResidual (·.2.residualAfter))
  others {d : Date} {day : PeriodDay} :
    p.settle.day? d = some day → p.judges d = false → day.required = none

theorem outcome_settle {p : Period} (sound : p.Sound) {completion : Completion}
    (asks : p.category.completion = some completion) : p.settle.outcome =
      (p.settle.judged.map fun e => (e.1, e.2.required, e.2.residualAfter),
        some ((p.settle.judged.map fun e => (e.1, e.2.required, e.2.residualAfter)).getLast?.elim
          p.initialResidual (·.2.2))) := by
  rw [outcome, finalResidual_of_judged sound asks, List.getLast?_map]
  cases p.settle.judged.getLast? with
  | none => rfl
  | some e => rfl

/-- Rearranged days complete the same amounts, where nothing is negative and everything fits. -/
theorem completed_rearranged {day' day : PeriodDay} (nonneg : ∀ c ∈ day.completions, 0 ≤ c.2.val)
    (fits : day.completedExactly ≤ 0x7fffffffffffffff)
    (same : (day'.completions.map (·.2)).Perm (day.completions.map (·.2))) :
    day'.completed = day.completed := by
  have vals : (day'.completions.map (·.2.val)).Perm (day.completions.map (·.2.val)) := by
    simpa [Function.comp_def] using same.map (·.val)
  have exactly : day'.completedExactly = day.completedExactly := vals.sum_eq
  have nonneg' : ∀ c ∈ day'.completions, 0 ≤ c.2.val := by
    intro c hc
    obtain ⟨b, hb, amount⟩ := List.mem_map.1 (same.mem_iff.1 (List.mem_map_of_mem hc))
    exact amount ▸ nonneg b hb
  refine Amount.ext ?_
  rw [day'.completed_val nonneg' (exactly ▸ fits), day.completed_val nonneg fits, exactly]

/-- The walk over the completions conserves amounts and always requires the best fit, and what it decides
depends on neither the order of the codes nor that of the records, nor on what was decided before. -/
theorem settle_conserves {p : Period} (arises : p.Arises) {completion : Completion}
    (asks : p.category.completion = some completion)
    (apart : (completion.replacing.map (·.amount)).Nodup) (positive : 0 ≤ p.initialResidual.val)
    (nonneg : ∀ e ∈ p.days.toList, ∀ c ∈ e.2.completions, 0 ≤ c.2.val)
    (fits : p.initialResidual.val + completedTotal p.days.toList ≤ 0x7fffffffffffffff) :
    p.Conserves completion ∧
      ∀ q : Period, q.Arises → q.Rearranges p → q.settle.outcome = p.settle.outcome := by
  have sound := arises.sound
  have within : ∀ e ∈ p.judged, ∀ c ∈ e.2.completions, 0 ≤ c.2.val :=
    fun e he => nonneg e (List.mem_filter.1 he).1
  have part : completedTotal p.judged ≤ completedTotal p.days.toList :=
    List.Sublist.sum_le_sum (List.filter_sublist.map _) (List.forall_mem_map.2 fun e he =>
      e.2.completedExactly_nonneg (nonneg e he))
  constructor
  · refine ⟨?_, ?_, finalResidual_of_judged sound asks, required_of_spared sound asks⟩
    · rw [judged_settle sound asks, walk_completions]
    · intro before after e cut
      rw [judged_settle sound asks] at cut
      exact balanced_of_walk apart ⟨sound.of_mem_judged, within, positive, by omega⟩ cut
  · intro q arises' rearranges
    obtain ⟨other, _, asks', same, listed⟩ := rearranges.replacing
    obtain rfl := Option.some.inj (same.symm.trans asks)
    have amounts : ∀ amount ∈ p.judged.map (·.2.completedExactly), 0 ≤ amount :=
      List.forall_mem_map.2 fun e he => e.2.completedExactly_nonneg (within e he)
    have exactly : ∀ e ∈ p.judged, e.2.completedExactly ≤ 0x7fffffffffffffff := by
      intro e he
      have single := List.single_le_sum amounts _ (List.mem_map_of_mem he)
      rw [← completedTotal] at single
      omega
    have completed : List.Forall₂ (fun e e' : Date × PeriodDay => e.1 = e'.1 ∧
        e.2.completed = e'.2.completed) p.judged q.judged :=
      ((List.forall₂_and_left _ _).2 ⟨fun e he => And.intro (within e he) (exactly e he),
        rearranges.judged⟩).imp fun e e' ⟨⟨nonneg, fits⟩, date, same⟩ =>
          ⟨date, (completed_rearranged nonneg fits same.symm).symm⟩
    have decided := walk_congr (Completion.largestFitting_perm apart listed)
      sound.of_mem_judged arises'.sound.of_mem_judged completed p.initialResidual
    rw [outcome_settle arises'.sound asks', outcome_settle sound asks, rearranges.initial,
      judged_settle arises'.sound asks', judged_settle sound asks, rearranges.initial, decided]

/-- A year of overtime with half an hour carried in: the day in January lies before the balance, and the one in
May behind an error. -/
def sampleOvertime (codes : List ReplacingCode) (amounts : List Amount) : Period :=
  let category : Category := ⟨"HOURLY", "", .programmed, .year, none,
    some ⟨.minutes, .ofList ["09M"], codes⟩, none, true, true⟩
  let record (id month day : Nat) : Absence :=
    ⟨⟨1, "09M", .sample 2024 month day, .specifiedMinutes, none, none⟩, id⟩
  let error : CriticalError := ⟨"HOURLY", .sample 2024 5 1, none, .twoPeriods (.sample 2024 5 1)⟩
  (start category ⟨.sample 2024 1 1, .sample 2024 12 31⟩ (-1)
    (some ⟨"HOURLY", .sample 2024 2 1, 0, 30, none⟩)).run
      ([.complete (record 1 1 15) 40] ++ amounts.map (.complete (record 2 4 1)) ++
        [.complete (record 3 4 2) 90, .replace (record 4 4 3), .compromise error,
          .complete (record 5 5 2) 60, .settle])

/-- Seventy-five minutes are reached on the first of April and a hundred and five on the second; an hour is
taken off on both. -/
theorem overtime_conserved :
    (sampleOvertime [⟨"09H1", 60⟩, ⟨"09H2", 120⟩] [20, 25]).Conserves
        ⟨.minutes, .ofList ["09M"], [⟨"09H1", 60⟩, ⟨"09H2", 120⟩]⟩ ∧
      (sampleOvertime [⟨"09H2", 120⟩, ⟨"09H1", 60⟩] [25, 20]).settle.outcome =
        (sampleOvertime [⟨"09H1", 60⟩, ⟨"09H2", 120⟩] [20, 25]).settle.outcome ∧
      (sampleOvertime [⟨"09H1", 60⟩, ⟨"09H2", 120⟩] [20, 25]).settle.outcome =
        ([(.sample 2024 4 1, some ⟨"09H1", 60⟩, 15), (.sample 2024 4 2, some ⟨"09H1", 60⟩, 45),
          (.sample 2024 4 3, none, 45)], some 45) := by
  have arises (codes : List ReplacingCode) (amounts : List Amount) : (sampleOvertime codes amounts).Arises :=
    ⟨_, _, _, _, _, rfl⟩
  have rearranges : (sampleOvertime [⟨"09H2", 120⟩, ⟨"09H1", 60⟩] [25, 20]).Rearranges
      (sampleOvertime [⟨"09H1", 60⟩, ⟨"09H2", 120⟩] [20, 25]) := by
    refine ⟨⟨_, _, rfl, rfl, .swap _ _ _⟩, rfl, ?_⟩
    decide
  obtain ⟨conserves, alike⟩ := settle_conserves (arises [⟨"09H1", 60⟩, ⟨"09H2", 120⟩] [20, 25]) rfl
    (by decide) (by decide) (by decide) (by decide)
  exact ⟨conserves, alike _ (arises _ _) rearranges, rfl⟩

end Period

end Entitlement
