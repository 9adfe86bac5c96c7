import FormulaGrading.Proofs.Closeness
import FormulaGrading.Proofs.Grading.Pass
import FormulaGrading.Proofs.Grading.Results

/-!
The formula of an answer as a response. It agrees with the answer wherever it has a value,
so it earns credit: that of the answer, or of an earlier one.
-/

namespace FormulaGrading.Grading

variable {p : Policy} {answers : List Answer} {seed : UInt64} {a : Answer} {i : Nat}

/-- A response that can be read gets to a pass if there are numbers to draw. -/
theorem exists_pass {response : String} {candidate : Formula}
    (hcomparison : p.comparison = .byValue) (hnoFault : p.fault? = none)
    (hread : Formula.parse p.names response = .ok candidate)
    (hdrawable : ∀ v ∈ p.declared, v.interval.IsDrawable) :
    ∃ trials, Pass p answers seed response candidate trials := by
  have hdrawn : Sampling.trials? (p.sampled (compared p answers candidate)) p.trials seed ≠
      none := by
    rw [Ne, Policy.trials?_eq_none_iff hnoFault]
    rintro ⟨v, hv, hnot⟩
    exact hnot (hdrawable v hv)
  obtain ⟨trials, htrials⟩ := Option.ne_none_iff_exists'.1 hdrawn
  exact ⟨trials, hcomparison, hnoFault, hread, htrials⟩

/-- A formula is close to itself where it has a finite value. -/
theorem closeOn_self {e : Formula} {b : Bindings} {v : Float} (hnoFault : p.fault? = none)
    (hvalue : e.value b = .ok v) (hfinite : v.isFinite) : CloseOn p.tolerance e e b := by
  obtain ⟨hnonneg, htolerance⟩ := Policy.tolerance_of_noFault hnoFault
  exact closeOn_iff.2 ⟨v, v, hvalue, hvalue, isClose_self hfinite hnonneg htolerance⟩

/-- The formula of an answer, given as the response, has the verdict of that answer or of an
earlier one if it has finite values on all trials of the pass. If it cannot be read, or has
no value on some trial, it earns nothing. There is a pass if it can be read and there are
numbers to draw. -/
theorem verdict_of_own_formula (hcomparison : p.comparison = .byValue)
    (hnoFault : p.fault? = none) (hanswer : answers[i]? = some a) :
    (∀ e trials, Pass p answers seed a.formula e trials →
      ((∀ b ∈ trials, ∃ v, e.value b = .ok v ∧ v.isFinite) →
        ∃ j ≤ i, EarnsAt p answers seed a.formula j) ∧
      ((∃ b ∈ trials, ∃ fault, e.value b = .error fault) →
        p.verdict? answers seed a.formula = some .noCredit)) ∧
    (∀ fault, Formula.parse p.names a.formula = .error fault →
      p.verdict? answers seed a.formula = some .noCredit) ∧
    (∀ e, Formula.parse p.names a.formula = .ok e →
      (∀ v ∈ p.declared, v.interval.IsDrawable) →
        ∃ trials, Pass p answers seed a.formula e trials) := by
  refine ⟨fun e trials hpass => ⟨fun hvalues => ?_, ?_⟩, fun fault hread => ?_,
    fun e hread hdrawable => exists_pass hcomparison hnoFault hread hdrawable⟩
  · refine hpass.exists_earnsAt ⟨a, e, hanswer, hpass.read, fun b hb => ?_⟩
    obtain ⟨v, hvalue, hfinite⟩ := hvalues b hb
    exact closeOn_self hnoFault hvalue hfinite
  · rintro ⟨b, hb, fault, hvalue⟩
    exact hpass.verdict?_of_no_value hb hvalue
  · exact Policy.verdict?_of_unread hcomparison hread

/-- A variable near the largest numbers matches itself, although the distance that the
tolerance allows is infinite there. The answer before it has no value. -/
theorem earnsAt_of_huge_variable :
    ∃ j ≤ 1, EarnsAt { trials := 1, tolerance := 2.0, declared := [⟨"x", ⟨1e308, 1e308⟩⟩] }
      [⟨1, "x/0", 0.5, ""⟩, ⟨2, "x", 1.0, ""⟩] 0 "x" j := by
  have hpass : Pass { trials := 1, tolerance := 2.0, declared := [⟨"x", ⟨1e308, 1e308⟩⟩] }
      [⟨1, "x/0", 0.5, ""⟩, ⟨2, "x", 1.0, ""⟩] 0 "x" (.symbol ⟨"x", ⟨0, 1⟩⟩)
      [.ofList [("x", 1e308)]] :=
    ⟨rfl, by decide +kernel, read?_eq_some_iff.1 (by decide +kernel), by decide +kernel⟩
  have hvalue : (Formula.symbol ⟨"x", ⟨0, 1⟩⟩).value (.ofList [("x", 1e308)]) = .ok 1e308 := rfl
  refine ((verdict_of_own_formula (a := ⟨2, "x", 1.0, ""⟩) rfl hpass.noFault rfl).1 _ _ hpass).1
    fun b hb => ?_
  obtain rfl := List.mem_singleton.1 hb
  exact ⟨_, hvalue, by decide +kernel⟩

end FormulaGrading.Grading
