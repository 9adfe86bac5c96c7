import FormulaGrading.Proofs.Sampling.Bounds
import FormulaGrading.Proofs.Sampling.Drawing

/-!
What trials bind. A value that is too near to zero is drawn again, and such a value is kept only
if every number drawn in its place was too near to zero as well. Together with the bounds of
drawn numbers this says what may stand in a trial.
-/

namespace FormulaGrading.Sampling

open Decimal

namespace Interval

/-- Numbers drawn one right after the other. -/
def draws (i : Interval) (scale : Float) : Nat → Stream → List Float
  | 0, _ => []
  | times + 1, s => (i.drawScaled scale s).1 :: i.draws scale times (i.drawScaled scale s).2

section

variable {i : Interval} {scale : Float}

/-- What is kept is away from zero, or it is the last of numbers that are all near to zero. -/
theorem redraw_cases (times : Nat) (drawn : Float × Stream) :
    nearZero ≤ (i.redraw scale times drawn).1.abs ∨
      (drawn.1 :: i.draws scale times drawn.2).getLast? = some (i.redraw scale times drawn).1 ∧
        ∀ y ∈ drawn.1 :: i.draws scale times drawn.2, ¬nearZero ≤ y.abs := by
  induction times generalizing drawn with
  | zero =>
      by_cases haway : nearZero ≤ drawn.1.abs
      · exact .inl haway
      · exact .inr ⟨rfl, List.forall_mem_singleton.2 haway⟩
  | succ times ih =>
      rw [redraw]
      split
      next haway => exact .inl haway
      next hnear =>
        obtain haway | ⟨hlast, hall⟩ := ih (i.drawScaled scale drawn.2)
        · exact .inl haway
        · rw [draws, List.getLast?_cons_cons]
          exact .inr ⟨hlast, List.forall_mem_cons.2 ⟨hnear, hall⟩⟩

/-- A number near to zero is the only one of its interval, or as many numbers as are drawn at
most were all near to zero. -/
theorem near_of_draw? {s s' : Stream} {x : Float} (h : i.draw? s = some (x, s'))
    (hnear : ¬nearZero ≤ x.abs) :
    i.lower == i.upper ∨ ∃ scale, i.scale? = some scale ∧
      (i.draws scale drawLimit s).getLast? = some x ∧
        ∀ y ∈ i.draws scale drawLimit s, ¬nearZero ≤ y.abs := by
  rw [draw?] at h
  split at h
  next hsingle => exact .inl hsingle
  next =>
    obtain ⟨scale, hscale, hdrawn⟩ := Option.map_eq_some_iff.1 h
    have hkept : (i.redraw scale (drawLimit - 1) (i.drawScaled scale s)).1 = x :=
      congrArg Prod.fst hdrawn
    rw [← hkept] at hnear ⊢
    exact .inr ⟨scale, hscale, (redraw_cases _ _).resolve_left hnear⟩

theorem contains_of_mem_draws (hvalid : i.isValid) (hscale : i.IsScale scale) {times : Nat}
    {s : Stream} {y : Float} (hy : y ∈ i.draws scale times s) : i.Contains y := by
  induction times generalizing s with
  | zero => exact absurd hy List.not_mem_nil
  | succ times ih =>
      obtain rfl | hy := List.mem_cons.1 hy
      · exact contains_drawScaled hvalid hscale s
      · exact ih hy

/-- Between numbers, being too near to zero is being below the limit. -/
theorem abs_lt_nearZero_iff {y : Float} (hfinite : y.isFinite) :
    y.abs < 0.1 ↔ ¬nearZero ≤ y.abs := by
  have hnear : nearZero.isFinite := by decide +kernel
  have habs : y.abs.isFinite := (isFinite_abs y).trans hfinite
  refine lt_iff_le_not_le_float.trans (and_iff_right_of_imp fun hnot => ?_)
  exact le_of_not_lt_float (isRounded_numberOf habs).isNaN (isRounded_numberOf hnear).isNaN
    fun hlt => hnot (le_of_lt_float hlt)

end

end Interval

/-- There are as many trials as were asked for, and each binds the listed names and no others.
A value was drawn at some place of the stream of the seed, for the variable listed last under
its name, and lies in the interval of that variable. It is near to zero only if this interval
has no other number, or if all 32 numbers drawn from that place on were near to zero. -/
theorem trials_bind_drawn_values (vs : List Variable) (hvalid : ∀ v ∈ vs, v.interval.isValid)
    (count : Nat) (seed : UInt64) (trials : List Bindings)
    (h : trials? vs count seed = some trials) :
    trials.length = count ∧ ∀ b ∈ trials,
      (∀ name, (b.get? name).isSome ↔ name ∈ vs.map Variable.name) ∧
      ∀ name x, b.get? name = some x → ∃ v s s', lastNamed? vs name = some v ∧
        (Stream.ofSeed seed).LeadsTo s ∧ v.interval.draw? s = some (x, s') ∧
        (v.interval.lower ≤ x ∧ x ≤ v.interval.upper) ∧
        (x.abs < 0.1 → v.interval.lower == v.interval.upper ∨
          ∃ scale, v.interval.scale? = some scale ∧
            (v.interval.draws scale 32 s).getLast? = some x ∧
              ∀ y ∈ v.interval.draws scale 32 s, y.abs < 0.1) := by
  refine ⟨length_trials? h, fun b hb => ⟨isSome_get?_of_trials? h hb, fun name x hx => ?_⟩⟩
  obtain ⟨v, hv, s, s', hreached, hdraw⟩ := exists_draw_of_trials? h hb hx
  have hvalid' := hvalid v (lastNamed?_eq_some hv).1
  have hcontains := Interval.contains_of_draw? hvalid' hdraw
  refine ⟨v, s, s', hv, hreached, hdraw, hcontains, fun hsmall => ?_⟩
  have hnear := (Interval.abs_lt_nearZero_iff (hcontains.isFinite hvalid')).1 hsmall
  by_cases hsingle : v.interval.lower == v.interval.upper
  · exact .inl hsingle
  · obtain ⟨scale, hscale, hlast, hall⟩ :=
      (Interval.near_of_draw? hdraw hnear).resolve_left hsingle
    refine .inr ⟨scale, hscale, hlast, fun y hy => ?_⟩
    have hy' := Interval.contains_of_mem_draws hvalid'
      (Interval.isScale_of_scale? hvalid' hsingle hscale) hy
    exact (Interval.abs_lt_nearZero_iff (hy'.isFinite hvalid')).2 (hall y hy)

/-- Of two variables with one name the later one counts, here the one away from zero. -/
theorem trials_bind_later_interval :
    ∃ vs trials, vs = [⟨"x", .usual⟩, ⟨"h", ⟨-0.01, 0.01⟩⟩, ⟨"x", ⟨1.0, 2.0⟩⟩] ∧
      trials? vs 3 7 = some trials ∧ trials.length = 3 ∧
      ∀ b ∈ trials, b.get? "y" = none ∧ ∃ x, b.get? "x" = some x ∧ 1.0 ≤ x ∧ x ≤ 2.0 := by
  let vs : List Variable := [⟨"x", .usual⟩, ⟨"h", ⟨-0.01, 0.01⟩⟩, ⟨"x", ⟨1.0, 2.0⟩⟩]
  have hdrawable : ∀ v ∈ vs, v.interval.IsDrawable := by decide +kernel
  have hsome : (trials? vs 3 7).isSome := isSome_trials?_iff.2 (.inr hdrawable)
  obtain ⟨trials, htrials⟩ := Option.isSome_iff_exists.1 hsome
  obtain ⟨hlength, hbound⟩ :=
    trials_bind_drawn_values vs (by decide +kernel) 3 7 trials htrials
  refine ⟨vs, trials, rfl, htrials, hlength, fun b hb => ?_⟩
  obtain ⟨hnames, hvalues⟩ := hbound b hb
  constructor
  · rw [← Option.not_isSome_iff_eq_none, hnames]
    decide
  · obtain ⟨x, hx⟩ := Option.isSome_iff_exists.1 ((hnames "x").2 (by decide))
    obtain ⟨v, s, s', hv, -, -, hcontains, -⟩ := hvalues "x" x hx
    obtain rfl : (⟨"x", ⟨1.0, 2.0⟩⟩ : Variable) = v := Option.some.inj hv
    exact ⟨x, hx, hcontains⟩

end FormulaGrading.Sampling
