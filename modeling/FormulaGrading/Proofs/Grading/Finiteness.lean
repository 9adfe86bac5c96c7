import FormulaGrading.Proofs.Evaluation
import FormulaGrading.Proofs.Grading.Pass
import FormulaGrading.Proofs.Sampling.Bounds
import FormulaGrading.Proofs.Sampling.Drawing

/-!
What is tested for closeness. Values are drawn from intervals with finite bounds, so they are
finite, and then so are all values that formulas have. How the test would judge any other
numbers makes no difference to a verdict.
-/

namespace FormulaGrading.Grading

open Sampling

/-- Whether an answer can be read, and on every trial it has a value, as the response has,
such that both pass a test. -/
def passesTest (close : Float → Float → Bool) (p : Policy) (candidate : Formula)
    (trials : List Bindings) (a : Answer) : Bool :=
  (p.read? a.formula).any fun reference =>
    trials.all fun b =>
      match candidate.value b, reference.value b with
      | .ok c, .ok r => close c r
      | _, _ => false

theorem Policy.isValid_of_mem_sampled {p : Policy} {formulas : List Formula}
    (hvalid : ∀ v ∈ p.declared, v.interval.isValid) :
    ∀ v ∈ p.sampled formulas, v.interval.isValid := by
  intro v hv
  unfold sampled at hv
  split at hv
  next =>
    obtain ⟨name, -, rfl⟩ := List.mem_map.1 hv
    exact Interval.isValid_usual
  next => exact hvalid v hv

variable {p : Policy} {answers : List Answer} {seed : UInt64} {response : String}
  {candidate : Formula} {trials : List Bindings}

/-- A formula has no value but finite ones under finite bindings. -/
theorem isFinite_value_of_bindings {b : Bindings} {e : Formula} {v : Float}
    (hbound : ∀ name x, b.get? name = some x → x.isFinite) (h : e.value b = .ok v) :
    v.isFinite :=
  Formula.isFinite_value h fun s w _ hw => hbound s.name w hw

/-- Tests that agree on finite numbers agree on formulas, under finite bindings. -/
theorem agreesWith_eq_passesTest {close : Float → Float → Bool}
    (hclose : ∀ c r, c.isFinite → r.isFinite → close c r = isClose c r p.tolerance)
    (hfinite : ∀ b ∈ trials, ∀ name x, b.get? name = some x → x.isFinite) :
    agreesWith p candidate trials = passesTest close p candidate trials := by
  funext a
  rw [agreesWith, passesTest]
  congr 1
  funext reference
  rw [Bool.eq_iff_iff, agreesOnAll_iff, List.all_eq_true]
  refine forall₂_congr fun b hb => ?_
  rw [closeOn_iff]
  cases hc : candidate.value b with
  | error fault => simp
  | ok c =>
      cases hr : reference.value b with
      | error fault => simp
      | ok r =>
          have hfiniteC := isFinite_value_of_bindings (hfinite b hb) hc
          have hfiniteR := isFinite_value_of_bindings (hfinite b hb) hr
          simp [hclose c r hfiniteC hfiniteR]

/-- Where the bounds of all declared variables are accepted, comparing by value only ever
tests finite numbers. The values of all trials are finite, and so are those of the response
and of the answers. With any other test of closeness that judges finite numbers alike, the
verdict is the same. -/
theorem compares_finite_numbers (p : Policy) (answers : List Answer) (seed : UInt64)
    (response : String) (candidate : Formula) (trials : List Bindings)
    (hdeclared : ∀ v ∈ p.declared,
      (Interval.ofBounds? v.interval.lower v.interval.upper).isSome)
    (hpass : Pass p answers seed response candidate trials) :
    (∀ b ∈ trials, ∀ name x, b.get? name = some x → x.isFinite) ∧
    (∀ b ∈ trials, ∀ e ∈ compared p answers candidate, ∀ v, e.value b = .ok v → v.isFinite) ∧
    ∀ close : Float → Float → Bool,
      (∀ c r, c.isFinite → r.isFinite → close c r = isClose c r p.tolerance) →
        p.verdict? answers seed response =
          some (.ofSearch (answers.find? (passesTest close p candidate trials))) := by
  have hvalid : ∀ v ∈ p.declared, v.interval.isValid := fun v hv => by
    simpa [Interval.ofBounds?] using hdeclared v hv
  have hfinite : ∀ b ∈ trials, ∀ name x, b.get? name = some x → x.isFinite :=
    fun b hb name x hx =>
      isFinite_of_trials? (Policy.isValid_of_mem_sampled hvalid) hpass.drawn hb hx
  refine ⟨hfinite, fun b hb e _ v hv => isFinite_value_of_bindings (hfinite b hb) hv,
    fun close hclose => ?_⟩
  rw [hpass.verdict?_eq, agreesWith_eq_passesTest hclose hfinite]

/-- A variable between finite bounds, and a test that lets everything pass that is not
finite. -/
theorem compares_finite_numbers_of_twice :
    (Interval.ofBounds? (-1.0) 3.0).isSome ∧
      ∃ candidate trials,
        Pass { trials := 2, declared := [⟨"x", ⟨-1.0, 3.0⟩⟩] } [⟨1, "x + x", 1.0, ""⟩] 0 "2x"
          candidate trials ∧
        (∀ b ∈ trials, ∀ name x, b.get? name = some x → x.isFinite) ∧
        Policy.verdict? { trials := 2, declared := [⟨"x", ⟨-1.0, 3.0⟩⟩] }
            [⟨1, "x + x", 1.0, ""⟩] 0 "2x" =
          some (.ofSearch ([⟨1, "x + x", 1.0, ""⟩].find?
            (passesTest (fun c r => !c.isFinite || !r.isFinite || isClose c r 0.001)
              { trials := 2, declared := [⟨"x", ⟨-1.0, 3.0⟩⟩] } candidate trials))) := by
  have hbounds : (Interval.ofBounds? (-1.0) 3.0).isSome := by decide +kernel
  have hread : (Policy.read? { trials := 2, declared := [⟨"x", ⟨-1.0, 3.0⟩⟩] } "2x").isSome := by
    decide +kernel
  have hdrawn : (trials? [⟨"x", ⟨-1.0, 3.0⟩⟩] 2 0).isSome := by decide +kernel
  obtain ⟨candidate, hread⟩ := Option.isSome_iff_exists.1 hread
  obtain ⟨trials, hdrawn⟩ := Option.isSome_iff_exists.1 hdrawn
  have hpass : Pass { trials := 2, declared := [⟨"x", ⟨-1.0, 3.0⟩⟩] }
      [⟨1, "x + x", 1.0, ""⟩] 0 "2x" candidate trials :=
    ⟨rfl, by decide +kernel, read?_eq_some_iff.1 hread, hdrawn⟩
  obtain ⟨hfinite, -, hverdict⟩ := compares_finite_numbers _ _ _ _ _ _ (by simpa) hpass
  exact ⟨hbounds, candidate, trials, hpass, hfinite,
    hverdict _ fun c r hc hr => by simp [hc, hr]⟩

end FormulaGrading.Grading
