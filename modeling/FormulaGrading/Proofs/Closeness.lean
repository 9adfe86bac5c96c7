import FormulaGrading.Formula.Value
import FormulaGrading.Proofs.Binary64.Values

/-!
Closeness of values. Every finite value is close to itself, however small the tolerance,
and what is close stays so under a wider tolerance.
-/

namespace FormulaGrading

open Decimal

/-- What the tolerance is multiplied by. -/
def scaleOf (reference : Float) : Float :=
  if reference.abs > 1.0 then reference.abs else 1.0

theorem isClose_iff {c r t : Float} : isClose c r t ↔ (c - r).abs ≤ t * scaleOf r := by
  simp [isClose, scaleOf]

variable {c r t t' : Float}

theorem zero_le_scaleOf : 0.0 ≤ scaleOf r := by
  unfold scaleOf
  split
  next hlarge =>
    exact le_trans_float (by decide +kernel : (0.0 : Float) ≤ 1.0) (le_of_lt_float hlarge)
  next => decide +kernel

theorem isFinite_scaleOf (hr : r.isFinite) : (scaleOf r).isFinite := by
  unfold scaleOf
  split
  · rwa [isFinite_abs]
  · decide +kernel

/-- A finite value is close to itself, also where the bound on the distance overflows. -/
theorem isClose_self (hr : r.isFinite) (ht : 0.0 ≤ t) (ht' : t.isFinite) : isClose r r t := by
  rw [isClose_iff, sub_self_float hr]
  exact mul_nonneg_float ht zero_le_scaleOf ht' (isFinite_scaleOf hr)

/-- What is close stays so under a wider tolerance. -/
theorem isClose_mono (ht : 0.0 ≤ t) (htt' : t ≤ t') (ht' : t'.isFinite)
    (h : isClose c r t) : isClose c r t' := by
  rw [isClose_iff] at h ⊢
  obtain ⟨-, hnumber, -⟩ := le_iff_rankOf_le.1 h
  exact le_trans_float h (mul_le_mul_float ht htt' ht' zero_le_scaleOf hnumber)

end FormulaGrading
