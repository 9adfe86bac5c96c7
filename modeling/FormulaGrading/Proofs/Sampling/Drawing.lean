import FormulaGrading.Sampling.Trial
import Mathlib.Logic.Basic

/-!
When trials can be drawn. It depends neither on the seed nor on how many trials there are,
as long as there is one: every variable needs an interval with numbers to draw.
-/

namespace FormulaGrading.Sampling

namespace Interval

/-- Whether numbers can be drawn: there is one number only, or the bounds are in order and
the factor from fractions to distances is finite. -/
def IsDrawable (i : Interval) : Prop :=
  i.lower == i.upper ∨
    (i.lower ≤ i.upper ∧ ((i.upper - i.lower) / largestFraction).isFinite)

instance (i : Interval) : Decidable i.IsDrawable :=
  inferInstanceAs (Decidable (_ ∨ _))

/-- Whether the bounds are so far apart that the factor from fractions to distances is not
finite. -/
def IsTooWide (i : Interval) : Prop :=
  ¬i.lower == i.upper ∧ ¬((i.upper - i.lower) / largestFraction).isFinite

instance (i : Interval) : Decidable i.IsTooWide :=
  inferInstanceAs (Decidable (_ ∧ _))

theorem isDrawable_usual : usual.IsDrawable := by
  decide +kernel

theorem isValid_usual : usual.isValid := by
  decide +kernel

/-- What keeps a valid interval from being drawn from is its width alone. -/
theorem isDrawable_iff_of_isValid {i : Interval} (h : i.isValid) :
    i.IsDrawable ↔ ¬i.IsTooWide := by
  have hle : i.lower ≤ i.upper := by simp_all [isValid]
  simp only [IsDrawable, IsTooWide, hle, true_and, not_and_or, not_not]

theorem isSome_scale?_iff {i : Interval} :
    i.scale?.isSome ↔ i.lower ≤ i.upper ∧ ((i.upper - i.lower) / largestFraction).isFinite := by
  unfold scale?
  split
  next hle =>
    simp only
    split
    next hfinite => exact iff_of_true rfl ⟨hle, hfinite⟩
    next hinfinite => exact iff_of_false Bool.false_ne_true fun h => hinfinite h.2
  next hgt => exact iff_of_false Bool.false_ne_true fun h => hgt h.1

/-- Numbers are drawn or not, whatever the random bits. -/
theorem isSome_draw?_iff {i : Interval} {s : Stream} : (i.draw? s).isSome ↔ i.IsDrawable := by
  rw [draw?, IsDrawable, ← isSome_scale?_iff]
  split
  next heq => exact iff_of_true rfl (.inl heq)
  next hne => rw [Option.isSome_map, or_iff_right hne]

end Interval

variable {vs : List Variable} {b : Bindings} {s : Stream}

theorem isSome_bindAll?_iff :
    (bindAll? vs b s).isSome ↔ ∀ v ∈ vs, v.interval.IsDrawable := by
  induction vs generalizing b s with
  | nil => simp [bindAll?]
  | cons v rest ih =>
      rw [bindAll?, List.forall_mem_cons, ← Interval.isSome_draw?_iff (s := s)]
      cases v.interval.draw? s with
      | none => simp
      | some drawn => simp [ih]

theorem isSome_trialsFrom?_iff {count : Nat} :
    (trialsFrom? vs count s).isSome ↔ count = 0 ∨ ∀ v ∈ vs, v.interval.IsDrawable := by
  induction count generalizing s with
  | zero => simp [trialsFrom?]
  | succ count ih =>
      rw [trialsFrom?, or_iff_right (Nat.succ_ne_zero count),
        ← isSome_bindAll?_iff (b := ∅) (s := s)]
      cases hbind : bindAll? vs ∅ s with
      | none => simp
      | some bound =>
          have hdrawable : ∀ v ∈ vs, v.interval.IsDrawable :=
            isSome_bindAll?_iff.1 (Option.isSome_of_eq_some hbind)
          rw [Option.isSome_map]
          exact iff_of_true (ih.2 (.inr hdrawable)) rfl

/-- Trials are drawn unless there is a variable without numbers to draw. -/
theorem isSome_trials?_iff {count : Nat} {seed : UInt64} :
    (trials? vs count seed).isSome ↔ count = 0 ∨ ∀ v ∈ vs, v.interval.IsDrawable :=
  isSome_trialsFrom?_iff

end FormulaGrading.Sampling
