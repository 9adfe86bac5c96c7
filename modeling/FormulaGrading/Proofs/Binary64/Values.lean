import FormulaGrading.Proofs.Binary64.Sum

/-!
Floats and the numbers that they stand for. The result of an operation lies between two
floats if the exact result does, and operations keep the order where exact ones keep it.
-/

namespace FormulaGrading.Decimal

open Float.Model (Format UnpackedFloat)
open Float.Model.UnpackedFloat

variable {x y z : Float} {v w : ℚ}

theorem add_comm_float (x y : Float) : x + y = y + x :=
  congrArg (fun u => Float.ofModel (.pack u))
    (add_comm_unpacked x.toModel.unpack y.toModel.unpack)

theorem mul_comm_float (x y : Float) : x * y = y * x :=
  congrArg (fun u => Float.ofModel (.pack u))
    (mul_comm_unpacked x.toModel.unpack y.toModel.unpack)

/-- The number that a finite float stands for. -/
def numberOf (x : Float) : ℚ :=
  realValue x.toModel.unpack

theorem isRounded_numberOf (hx : x.isFinite) : IsRounded (numberOf x) x.toModel.unpack :=
  isRounded_realValue (inForm_unpack _) hx

theorem isRounded_add_float (hx : x.isFinite) (hy : y.isFinite) :
    IsRounded (numberOf x + numberOf y) (x + y).toModel.unpack :=
  isRounded_add (inForm_unpack _) (inForm_unpack _) hx hy

theorem isRounded_mul_float (hx : x.isFinite) (hy : y.isFinite) :
    IsRounded (numberOf x * numberOf y) (x * y).toModel.unpack :=
  isRounded_mul (inForm_unpack _) (inForm_unpack _) hx hy

theorem IsRounded.isNaN (hx : IsRounded v x.toModel.unpack) : x.isNaN = false := by
  obtain ⟨r, -, hrank⟩ := hx
  exact hrank.isNumber

/-- Rounding keeps the order. -/
theorem IsRounded.le (hx : IsRounded v x.toModel.unpack) (hy : IsRounded w y.toModel.unpack)
    (h : v ≤ w) : x ≤ y := by
  obtain ⟨r, hrounds, hrank⟩ := hx
  obtain ⟨r', hrounds', hrank'⟩ := hy
  refine le_iff_rankOf_le.2 ⟨hrank.isNumber, hrank'.isNumber, ?_⟩
  calc rankOf x = r := hrank.rank_eq
    _ ≤ r' := hrounds.mono hrounds' h
    _ = rankOf y := hrank'.rank_eq.symm

/-- What a number between two floats is rounded to lies between them. -/
theorem IsRounded.between (hy : IsRounded v y.toModel.unpack) (hx : x.isFinite)
    (hz : z.isFinite) (hxv : numberOf x ≤ v) (hvz : v ≤ numberOf z) : x ≤ y ∧ y ≤ z :=
  ⟨(isRounded_numberOf hx).le hy hxv, hy.le (isRounded_numberOf hz) hvz⟩

theorem numberOf_le (hx : x.isFinite) (hy : y.isFinite) (h : x ≤ y) :
    numberOf x ≤ numberOf y :=
  realValue_le (inForm_unpack _) (inForm_unpack _) hx hy (le_iff_rankOf_le.1 h).2.2

theorem numberOf_nonneg (h : IsUnsigned x.toModel.unpack) : 0 ≤ numberOf x := by
  unfold numberOf
  cases hx : x.toModel.unpack with
  | notANumber | infinity | zero => exact le_rfl
  | finite s m e hm =>
      obtain rfl : s = .positive := by rwa [hx] at h
      show (0 : ℚ) ≤ m * 2 ^ e
      positivity

/-- What lies between finite floats is finite. -/
theorem isFinite_of_between (hx : x.isFinite) (hz : z.isFinite) (hxy : x ≤ y) (hyz : y ≤ z) :
    y.isFinite := by
  have hlow : -(infinityBits : Int) < rankOf x := (abs_lt.1 (abs_rank_lt (inForm_unpack _) hx)).1
  have hhigh : rankOf z < (infinityBits : Int) := (abs_lt.1 (abs_rank_lt (inForm_unpack _) hz)).2
  obtain ⟨-, hnumber, hxy⟩ := le_iff_rankOf_le.1 hxy
  obtain ⟨-, -, hyz⟩ := le_iff_rankOf_le.1 hyz
  replace hlow := hlow.trans_le hxy
  replace hhigh := hyz.trans_lt hhigh
  show y.toModel.unpack.isFinite
  replace hnumber : y.toModel.unpack.isNaN = false := hnumber
  unfold rankOf at hlow hhigh
  cases h : y.toModel.unpack with
  | notANumber => exact nomatch h ▸ hnumber
  | infinity s =>
      rw [h, rank_infinity] at hlow hhigh
      cases s with
      | positive => exact absurd hhigh (lt_irrefl _)
      | negative => exact absurd hlow (lt_irrefl _)
  | zero | finite => rfl

/-! ### Numbers that are not negative -/

theorem unpack_zero : (0.0 : Float).toModel.unpack = .zero .positive := by
  with_unfolding_all rfl

theorem isFinite_zero : (0.0 : Float).isFinite := by
  decide +kernel

theorem numberOf_zero : numberOf 0.0 = 0 := by
  rw [numberOf, unpack_zero, realValue_zero]

theorem numberOf_nonneg_of_le (hx : x.isFinite) (h : 0.0 ≤ x) : 0 ≤ numberOf x :=
  numberOf_zero.ge.trans (numberOf_le isFinite_zero hx h)

theorem isNonneg_of_le (h : 0.0 ≤ x) : IsNonneg x.toModel.unpack :=
  (isNonneg_iff (inForm_unpack _)).2 (zero_le_iff.1 h)

/-- Products of finite floats that are not negative are not negative. -/
theorem mul_nonneg_float (hx : 0.0 ≤ x) (hz : 0.0 ≤ z) (hx₁ : x.isFinite) (hz₁ : z.isFinite) :
    0.0 ≤ x * z := by
  refine (isRounded_numberOf isFinite_zero).le (isRounded_mul_float hx₁ hz₁) ?_
  rw [numberOf_zero]
  exact mul_nonneg (numberOf_nonneg_of_le hx₁ hx) (numberOf_nonneg_of_le hz₁ hz)

/-- Zero times infinity is no number. -/
theorem rank_ne_zero_of_mul_infinity {u : UnpackedFloat} (hu : InForm u)
    (h : (repack (UnpackedFloat.mul Format.binary64 u (.infinity .positive))).isNaN = false) :
    rank u ≠ 0 := by
  cases u with
  | notANumber | zero =>
      exact absurd (show (repack .notANumber).isNaN = false from h) (by decide +kernel)
  | infinity s => cases s <;> decide
  | finite s m e hm =>
      have hpos := Dyadic.IsCanonical.bits_pos hu
      cases s <;> simp [rank, Sign.apply, hpos.ne']

theorem hasRank_mul_infinity {u : UnpackedFloat} (hu : IsNonneg u) (hpos : rank u ≠ 0) :
    HasRank (repack (UnpackedFloat.mul Format.binary64 u (.infinity .positive))) infinityBits := by
  cases u with
  | notANumber => exact hu.elim
  | zero => exact absurd rfl hpos
  | infinity s | finite s =>
      obtain rfl : s = .positive := hu
      exact hasRank_repack_infinity

theorem unpack_eq_infinity (hz : 0.0 ≤ z) (hz₁ : ¬z.isFinite) :
    z.toModel.unpack = .infinity .positive := by
  have hz₀ := isNonneg_of_le hz
  replace hz₁ : ¬z.toModel.unpack.isFinite := hz₁
  revert hz₀ hz₁
  cases z.toModel.unpack with
  | notANumber => exact fun hz₀ => hz₀.elim
  | infinity s => exact fun hz₀ _ => congrArg _ hz₀
  | zero | finite => exact fun _ hz₁ => absurd rfl hz₁

/-- Multiplying floats by one that is not negative keeps their order. Zero times infinity is
no number, and is the only exception. -/
theorem mul_le_mul_float (hx : 0.0 ≤ x) (hxy : x ≤ y) (hy : y.isFinite) (hz : 0.0 ≤ z)
    (hnumber : (x * z).isNaN = false) : x * z ≤ y * z := by
  have hx₁ := isFinite_of_between isFinite_zero hy hx hxy
  by_cases hz₁ : z.isFinite
  · exact (isRounded_mul_float hx₁ hz₁).le (isRounded_mul_float hy hz₁)
      (mul_le_mul_of_nonneg_right (numberOf_le hx₁ hy hxy) (numberOf_nonneg_of_le hz₁ hz))
  · -- both products are infinite
    have hmul (w : Float) : (w * z).toModel.unpack =
        repack (UnpackedFloat.mul Format.binary64 w.toModel.unpack (.infinity .positive)) := by
      rw [← unpack_eq_infinity hz hz₁]
      rfl
    have hpos : rankOf x ≠ 0 := rank_ne_zero_of_mul_infinity (inForm_unpack _) (hmul x ▸ hnumber)
    have hpos' : rankOf y ≠ 0 := by
      have hrank := (zero_le_iff.1 hx).2
      have hle := (le_iff_rankOf_le.1 hxy).2.2
      omega
    have hproduct := hasRank_mul_infinity (isNonneg_of_le hx) hpos
    have hproduct' := hasRank_mul_infinity (isNonneg_of_le (le_trans_float hx hxy)) hpos'
    rw [← hmul] at hproduct hproduct'
    exact le_iff_rankOf_le.2 ⟨hnumber, hproduct'.isNumber,
      (hproduct.rank_eq.trans hproduct'.rank_eq.symm).le⟩

end FormulaGrading.Decimal
