import FormulaGrading.Proofs.Closeness
import FormulaGrading.Proofs.Grading.Pass
import FormulaGrading.Proofs.Sampling.Trials

/-!
Loosening a policy. With fewer trials and a wider tolerance a response agrees with all
answers that it agreed with before, and perhaps with earlier ones.
-/

namespace FormulaGrading.Grading

open Sampling

/-- The policy with other trials and another tolerance, and nothing else changed. -/
def Policy.loosened (p : Policy) (trials : Nat) (tolerance : Float) : Policy :=
  { p with trials, tolerance }

variable {p : Policy} {answers : List Answer} {seed : UInt64} {response : String}
  {candidate reference : Formula} {trials : List Bindings} {b : Bindings} {fewer i : Nat}
  {wider : Float}

theorem CloseOn.mono {tolerance : Float} (h : CloseOn tolerance candidate reference b)
    (hnonneg : 0.0 ≤ tolerance) (hwider : tolerance ≤ wider) (hfinite : wider.isFinite) :
    CloseOn wider candidate reference b := by
  obtain ⟨c, r, hc, hr, hclose⟩ := closeOn_iff.1 h
  exact closeOn_iff.2 ⟨c, r, hc, hr, isClose_mono hnonneg hwider hfinite hclose⟩

/-- Agreement does not depend on trials that are left out. -/
theorem AgreesAt.loosened (h : AgreesAt p answers candidate trials i)
    (hnoFault : p.fault? = none) (hloosened : (p.loosened fewer wider).fault? = none)
    (hwider : p.tolerance ≤ wider) :
    AgreesAt (p.loosened fewer wider) answers candidate (trials.take fewer) i := by
  obtain ⟨a, reference, hanswer, hread, hclose⟩ := h
  have hnonneg : 0.0 ≤ p.tolerance := (Policy.tolerance_of_noFault hnoFault).1
  have hfinite : wider.isFinite := (Policy.tolerance_of_noFault hloosened).2
  exact ⟨a, reference, hanswer, hread, fun b hb =>
    (hclose b (List.mem_of_mem_take hb)).mono hnonneg hwider hfinite⟩

/-- The trials that remain are the first ones. -/
theorem Pass.loosened (h : Pass p answers seed response candidate trials)
    (hloosened : (p.loosened fewer wider).fault? = none) (hfewer : fewer ≤ p.trials) :
    Pass (p.loosened fewer wider) answers seed response candidate (trials.take fewer) :=
  ⟨h.byValue, hloosened, h.read, trials?_take h.drawn hfewer⟩

/-- Loosening a policy never loses credit. A response that has the verdict of the answer at a
place has that of an answer no further down once there are fewer trials, which are the
first ones of those before, and a wider tolerance. -/
theorem earnsAt_of_loosened (hcomparison : p.comparison = .byValue)
    (hloosened : (p.loosened fewer wider).fault? = none) (hfewer : fewer ≤ p.trials)
    (hwider : p.tolerance ≤ wider) (hfirst : FirstMatch p answers seed response i) :
    EarnsAt p answers seed response i ∧
      (∃ j ≤ i, EarnsAt (p.loosened fewer wider) answers seed response j) ∧
      ∃ candidate trials, Pass p answers seed response candidate trials ∧
        Pass (p.loosened fewer wider) answers seed response candidate (trials.take fewer) := by
  obtain ⟨candidate, trials, hpass⟩ := hfirst.exists_pass hcomparison
  have hpass' := hpass.loosened hloosened hfewer
  have hagrees := (hpass.firstMatch_iff.1 hfirst).1
  exact ⟨hpass.earnsAt hfirst,
    hpass'.exists_earnsAt (hagrees.loosened hpass.noFault hloosened hwider),
    candidate, trials, hpass, hpass'⟩

/-- With one trial instead of two and a wide tolerance, twice a variable has a verdict that
comes no later; here the variable itself is within the tolerance. -/
theorem earnsAt_of_wide_tolerance :
    ∃ j ≤ 1, EarnsAt
      (Policy.loosened { trials := 2, tolerance := 0.0, declared := [⟨"x", ⟨2.0, 2.0⟩⟩] } 1 1.0)
      [⟨1, "x", 0.5, ""⟩, ⟨2, "x+x", 1.0, ""⟩] 0 "2x" j := by
  have hpass : Pass { trials := 2, tolerance := 0.0, declared := [⟨"x", ⟨2.0, 2.0⟩⟩] }
      [⟨1, "x", 0.5, ""⟩, ⟨2, "x+x", 1.0, ""⟩] 0 "2x"
      (.binary (.number 2.0 ⟨0, 1⟩) ⟨.multiply, true, ⟨1, 1⟩⟩ (.symbol ⟨"x", ⟨1, 2⟩⟩) ⟨0, 2⟩)
      [.ofList [("x", 2.0)], .ofList [("x", 2.0)]] :=
    ⟨rfl, by decide +kernel, read?_eq_some_iff.1 (by decide +kernel), by decide +kernel⟩
  have hfirst : FirstMatch { trials := 2, tolerance := 0.0, declared := [⟨"x", ⟨2.0, 2.0⟩⟩] }
      [⟨1, "x", 0.5, ""⟩, ⟨2, "x+x", 1.0, ""⟩] 0 "2x" 1 :=
    hpass.firstMatch_iff.2 (findIdx?_eq_some_iff.1 (by decide +kernel))
  exact (earnsAt_of_loosened rfl (by decide +kernel) (by decide +kernel) (by decide +kernel)
    hfirst).2.1

end FormulaGrading.Grading
