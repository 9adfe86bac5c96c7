import FormulaGrading.Proofs.Binary64.Nearest
import FormulaGrading.Proofs.Binary64.Values
import FormulaGrading.Proofs.Sampling.Trials

/-!
Where drawn numbers lie. The factor is chosen so that the largest fraction does not lead
beyond the upper bound, and smaller fractions lead less far, also after rounding. So a number
that is drawn from a valid interval lies in it, and is finite.
-/

namespace FormulaGrading.Sampling

open Decimal
open Float.Model (Format UnpackedFloat)
open Float.Model.UnpackedFloat

namespace Interval

/-! ### Fractions -/

theorem unpack_fractionCount : (4503599627370496.0 : Float).toModel.unpack =
    .finite .positive (2 ^ 52) 0 (by decide) := by
  with_unfolding_all rfl

theorem unpack_largestFraction : largestFraction.toModel.unpack =
    .finite .positive (2 ^ 53 - 2) (-53) (by decide) := by
  with_unfolding_all rfl

theorem isFinite_largestFraction : largestFraction.isFinite := by
  decide +kernel

theorem numberOf_largestFraction : numberOf largestFraction = (2 ^ 52 - 1) / 2 ^ 52 := by
  rw [numberOf, unpack_largestFraction]
  norm_num [realValue, signed]

theorem toNat_shiftRight_lt (number : UInt64) : (number >>> 12).toNat < 2 ^ 52 := by
  have hlt := number.toNat_lt
  rw [UInt64.toNat_shiftRight, Nat.shiftRight_eq_div_pow]
  show number.toNat / 2 ^ 12 < 2 ^ 52
  omega

/-- Integers with few bits are divided by a power of two without rounding. -/
theorem numberOf_divided {n : Nat} (hpos : 0 < n) (hlt : n < 2 ^ 53) :
    (n.toUInt64.toFloat / 4503599627370496.0).isFinite ∧
      numberOf (n.toUInt64.toFloat / 4503599627370496.0) = n / 2 ^ 52 := by
  obtain ⟨d, hd, hlarge, hvalue, hunpack⟩ := unpack_toFloat hpos hlt
  have hexponent : -53 < d.exponent := by
    have hbits : (d.significand : ℚ) < 2 ^ (53 : Int) := by exact_mod_cast hd.lt
    have hone : (1 : ℚ) ≤ n := by exact_mod_cast hpos
    have hbound : (2 : ℚ) ^ (0 : Int) < 2 ^ (53 + d.exponent) := by
      rw [zpow_zero, zpow_add₀ two_ne_zero]
      exact (hone.trans_eq hvalue.symm).trans_lt (mul_lt_mul_of_pos_right hbits (by positivity))
    have := lt_of_two_zpow_lt hbound
    omega
  have hmax := hd.exponent_le
  have hd' : Decimal.Dyadic.IsCanonical ⟨d.significand, d.exponent - 52⟩ :=
    ⟨hd.pos, hd.lt, by show -1074 ≤ d.exponent - 52; omega, by show d.exponent - 52 ≤ 971; omega,
      .inl hlarge⟩
  have hquotient : (d.significand : ℚ) * 2 ^ d.exponent / ((2 ^ 52 : Nat) * 2 ^ (0 : Int)) =
      d.significand * 2 ^ (d.exponent - 52) := by
    rw [zpow_sub₀ two_ne_zero, zpow_zero, mul_one, mul_div_assoc]
    norm_cast
  have hdivided : (n.toUInt64.toFloat / 4503599627370496.0).toModel.unpack =
      .finite .positive d.significand (d.exponent - 52) hd.pos := by
    show (Float.Model.pack (UnpackedFloat.div Format.binary64 n.toUInt64.toFloat.toModel.unpack
      (4503599627370496.0 : Float).toModel.unpack)).unpack = _
    rw [hunpack, unpack_fractionCount,
      div_eq hd' hd.pos _ (hquotient.symm ▸ hd'.holds_value)]
    exact hd'.unpack_ofModel_pack
  constructor
  · show UnpackedFloat.isFinite _
    rw [hdivided]
    rfl
  · rw [numberOf, hdivided]
    show (d.significand : ℚ) * 2 ^ (d.exponent - 52) = _
    rw [← hquotient, hvalue, zpow_zero, mul_one]
    norm_cast

/-- Fractions are exact. -/
theorem numberOf_fractionOf (number : UInt64) :
    (fractionOf number).isFinite ∧
      numberOf (fractionOf number) = ((number >>> 12).toNat : ℚ) / 2 ^ 52 := by
  rw [fractionOf]
  obtain hzero | hpos := Nat.eq_zero_or_pos (number >>> 12).toNat
  · have hfraction : (0 : UInt64).toFloat / 4503599627370496.0 = 0.0 := by decide +kernel
    rw [UInt64.toNat_inj.1 (hzero.trans UInt64.toNat_zero.symm), hfraction, numberOf_zero]
    exact ⟨by decide +kernel, by norm_num⟩
  · have hdivided := numberOf_divided hpos ((toNat_shiftRight_lt number).trans (by decide))
    rwa [Nat.toUInt64, UInt64.ofNat_toNat] at hdivided

/-- Fractions go from zero to the largest one. -/
theorem fractionOf_bounds (number : UInt64) :
    0 ≤ numberOf (fractionOf number) ∧
      numberOf (fractionOf number) ≤ numberOf largestFraction := by
  have hlt : ((number >>> 12).toNat : ℚ) ≤ 2 ^ 52 - 1 := by
    have hnat := toNat_shiftRight_lt number
    have hrat : ((number >>> 12).toNat : ℚ) + 1 ≤ (2 ^ 52 : Nat) := by exact_mod_cast hnat
    push_cast at hrat
    linarith
  rw [(numberOf_fractionOf number).2, numberOf_largestFraction]
  exact ⟨by positivity, div_le_div_of_nonneg_right hlt (by positivity)⟩

/-! ### The factor -/

/-- Whether numbers can be multiplied by a fraction without leaving the floats: the product
lies between zero and the number. -/
theorem mul_between {x y z : Float} (hx : x.isFinite) (hy : y.isFinite) (hz : z.isFinite)
    (hpos : 0 ≤ numberOf x * numberOf y) (hle : numberOf x * numberOf y ≤ numberOf z) :
    (x * y).isFinite ∧ 0 ≤ numberOf (x * y) := by
  have hzero : (0.0 : Float).isFinite := by decide +kernel
  obtain ⟨hlow, hhigh⟩ :=
    (isRounded_mul_float hx hy).between hzero hz (numberOf_zero.trans_le hpos) hle
  have hfinite := isFinite_of_between hzero hz hlow hhigh
  exact ⟨hfinite, numberOf_zero.ge.trans (numberOf_le hzero hfinite hlow)⟩

/-- Whether a factor does not lead beyond the upper bound. -/
structure IsScale (i : Interval) (scale : Float) : Prop where
  isFinite : scale.isFinite
  nonneg : 0 ≤ numberOf scale
  reaches : scale * largestFraction + i.lower ≤ i.upper

theorem largestFraction_le_one : numberOf largestFraction ≤ 1 := by
  rw [numberOf_largestFraction]
  norm_num

theorem largestFraction_nonneg : 0 ≤ numberOf largestFraction := by
  rw [numberOf_largestFraction]
  norm_num

theorem mul_largestFraction {scale : Float} (hfinite : scale.isFinite)
    (hnonneg : 0 ≤ numberOf scale) :
    (scale * largestFraction).isFinite ∧ 0 ≤ numberOf (scale * largestFraction) :=
  mul_between hfinite isFinite_largestFraction hfinite
    (mul_nonneg hnonneg largestFraction_nonneg)
    (mul_le_of_le_one_right hnonneg largestFraction_le_one)

theorem isValid_iff {i : Interval} :
    i.isValid ↔ i.lower.isFinite ∧ i.upper.isFinite ∧ i.lower ≤ i.upper := by
  simp [isValid, and_assoc]

/-- Bits below those of infinity are the bits of finite numbers from zero up. -/
theorem ofBits_of_lt {bits : Nat} (h : bits < infinityBits) :
    (Float.ofBits (UInt64.ofNat bits)).isFinite ∧
      0 ≤ numberOf (Float.ofBits (UInt64.ofNat bits)) := by
  have hbits : (UInt64.ofNat bits).toBitVec.toNat = bits := by
    show (UInt64.ofNat bits).toNat = bits
    rw [UInt64.toNat_ofNat', Nat.mod_eq_of_lt (h.trans (by decide))]
  unfold infinityBits at h
  have hfinite : (unpack Format.binary64 (UInt64.ofNat bits).toBitVec).isFinite := by
    rw [isFinite_unpack_iff, hbits]
    omega
  have hunpack : (Float.ofBits (UInt64.ofNat bits)).toModel.unpack =
      unpack Format.binary64 (UInt64.ofNat bits).toBitVec :=
    repack_eq (inForm_unpack _) hfinite
  refine ⟨?_, numberOf_nonneg ?_⟩
  · show UnpackedFloat.isFinite _
    rw [hunpack]
    exact hfinite
  · rw [hunpack]
    exact isUnsigned_unpack (hbits.trans_le h.le)

/-- The factor is one that has been tried. -/
theorem isScale_shrinkScale {i : Interval} (hvalid : i.isValid) {bits : Nat}
    (h : bits < infinityBits) : i.IsScale (i.shrinkScale bits) := by
  obtain ⟨hlower, hupper, hle⟩ := isValid_iff.1 hvalid
  induction bits with
  | zero =>
      have hzero : (0.0 : Float).isFinite := by decide +kernel
      have hproduct : 0.0 * largestFraction = 0.0 := by decide +kernel
      refine ⟨hzero, numberOf_zero.ge, ?_⟩
      rw [shrinkScale, hproduct]
      refine le_trans_float ?_ hle
      refine (isRounded_add_float hzero hlower).le (isRounded_numberOf hlower) ?_
      rw [numberOf_zero, zero_add]
  | succ bits ih =>
      rw [shrinkScale]
      split
      next => exact ih (Nat.lt_of_succ_lt h)
      next hwithin =>
        obtain ⟨hfinite, hnonneg⟩ := ofBits_of_lt h
        have hproduct := (mul_largestFraction hfinite hnonneg).1
        exact ⟨hfinite, hnonneg, le_of_not_lt_float (isRounded_add_float hproduct hlower).isNaN
          (isRounded_numberOf hupper).isNaN hwithin⟩

theorem rankOf_lt_of_isValid {i : Interval} (hvalid : i.isValid) (hne : ¬i.lower == i.upper) :
    rankOf i.lower < rankOf i.upper := by
  obtain ⟨-, -, hle⟩ := isValid_iff.1 hvalid
  have hless : i.lower < i.upper := by
    have hcompare := le_iff_compare.1 hle
    replace hne : ¬(i.lower.toModel.unpack.compare i.upper.toModel.unpack == some .eq) := hne
    rw [lt_iff_compare]
    cases h : i.lower.toModel.unpack.compare i.upper.toModel.unpack with
    | none => simp [h] at hcompare
    | some order => cases order <;> simp_all
  obtain ⟨hlower, hupper, -⟩ := le_iff_rankOf_le.1 hle
  by_contra hnot
  exact (lt_iff_le_not_le_float.1 hless).2 (le_iff_rankOf_le.2 ⟨hupper, hlower, not_lt.1 hnot⟩)

/-- The bits of the first factor that is tried are those of a finite number. -/
theorem toBits_scale_lt {i : Interval} (hvalid : i.isValid) (hne : ¬i.lower == i.upper)
    (hfinite : ((i.upper - i.lower) / largestFraction).isFinite) :
    ((i.upper - i.lower) / largestFraction).toBits.toNat < infinityBits := by
  obtain ⟨hlower, hupper, -⟩ := isValid_iff.1 hvalid
  have hwidth : IsUnsigned (i.upper - i.lower).toModel.unpack :=
    isUnsigned_unpack (toNat_pack_le (isUnsigned_sub (inForm_unpack _) (inForm_unpack _) hupper
      hlower (rankOf_lt_of_isValid hvalid hne)))
  have hquotient : IsUnsigned (UnpackedFloat.div Format.binary64
      (i.upper - i.lower).toModel.unpack largestFraction.toModel.unpack) := by
    rw [unpack_largestFraction]
    cases h : (i.upper - i.lower).toModel.unpack with
    | notANumber => rwa [h] at hwidth
    | infinity sign | zero sign =>
        obtain rfl : sign = .positive := by rwa [h] at hwidth
        rfl
    | finite sign m e hm =>
        obtain rfl : sign = .positive := by rwa [h] at hwidth
        exact isUnsigned_div hm _
  have hle : ((i.upper - i.lower) / largestFraction).toBits.toNat ≤ infinityBits :=
    toNat_pack_le hquotient
  refine hle.lt_of_ne fun heq => ?_
  refine isFinite_unpack_iff.1 hfinite ?_
  show ((i.upper - i.lower) / largestFraction).toBits.toNat / 2 ^ 52 % 2048 = 2047
  rw [heq]
  rfl

theorem isScale_of_scale? {i : Interval} (hvalid : i.isValid) (hne : ¬i.lower == i.upper)
    {scale : Float} (h : i.scale? = some scale) : i.IsScale scale := by
  unfold scale? at h
  split at h
  next =>
    simp only at h
    split at h
    next hfinite =>
      obtain rfl := Option.some.inj h
      exact isScale_shrinkScale hvalid (toBits_scale_lt hvalid hne hfinite)
    next => exact nomatch h
  next => exact nomatch h

/-! ### Drawn numbers -/

/-- Whether a number lies between the bounds. -/
def Contains (i : Interval) (x : Float) : Prop :=
  i.lower ≤ x ∧ x ≤ i.upper

theorem Contains.isFinite {i : Interval} {x : Float} (h : i.Contains x) (hvalid : i.isValid) :
    x.isFinite := by
  obtain ⟨hlower, hupper, -⟩ := isValid_iff.1 hvalid
  exact isFinite_of_between hlower hupper h.1 h.2

section

variable {i : Interval} {scale : Float}

theorem contains_drawScaled (hvalid : i.isValid) (hscale : i.IsScale scale) (s : Stream) :
    i.Contains (i.drawScaled scale s).1 := by
  obtain ⟨hlower, hupper, -⟩ := isValid_iff.1 hvalid
  show i.Contains (fractionOf s.next.1 * scale + i.lower)
  generalize s.next.1 = number
  obtain ⟨hfraction, -⟩ := numberOf_fractionOf number
  obtain ⟨hnonneg, hle⟩ := fractionOf_bounds number
  obtain ⟨hproduct, hpos⟩ := mul_between hfraction hscale.isFinite hscale.isFinite
    (mul_nonneg hnonneg hscale.nonneg)
    (mul_le_of_le_one_left hscale.nonneg (hle.trans largestFraction_le_one))
  have hlargest := (mul_largestFraction hscale.isFinite hscale.nonneg).1
  have hless : fractionOf number * scale ≤ scale * largestFraction := by
    refine (isRounded_mul_float hfraction hscale.isFinite).le
      (isRounded_mul_float hscale.isFinite isFinite_largestFraction) ?_
    rw [mul_comm]
    exact mul_le_mul_of_nonneg_left hle hscale.nonneg
  have hsum := isRounded_add_float hproduct hlower
  constructor
  · exact (isRounded_numberOf hlower).le hsum (le_add_of_nonneg_left hpos)
  · refine le_trans_float (hsum.le (isRounded_add_float hlargest hlower) ?_) hscale.reaches
    exact add_le_add_left (numberOf_le hproduct hlargest hless) _

/-- Drawing again stays in the interval. -/
theorem contains_redraw (hvalid : i.isValid) (hscale : i.IsScale scale) (times : Nat)
    {drawn : Float × Stream} (h : i.Contains drawn.1) :
    i.Contains (i.redraw scale times drawn).1 := by
  induction times generalizing drawn with
  | zero => exact h
  | succ times ih =>
      rw [redraw]
      split
      · exact h
      · exact ih (contains_drawScaled hvalid hscale _)

/-- A number drawn from a valid interval lies in it. -/
theorem contains_of_draw? (hvalid : i.isValid) {s s' : Stream} {x : Float}
    (h : i.draw? s = some (x, s')) : i.Contains x := by
  rw [draw?] at h
  split at h
  next =>
    obtain ⟨rfl, -⟩ := Prod.mk.inj (Option.some.inj h)
    obtain ⟨hlower, -, hle⟩ := isValid_iff.1 hvalid
    exact ⟨(isRounded_numberOf hlower).le (isRounded_numberOf hlower) le_rfl, hle⟩
  next hne =>
    obtain ⟨scale, hscale, heq⟩ := Option.map_eq_some_iff.1 h
    replace hscale := isScale_of_scale? hvalid hne hscale
    have hcontains := contains_redraw hvalid hscale (drawLimit - 1)
      (contains_drawScaled hvalid hscale s)
    rwa [heq] at hcontains

end

end Interval

/-- The values in trials lie in the intervals of their variables, each in that of the variable
listed last under its name. -/
theorem contains_of_trials? {vs : List Variable} (hvalid : ∀ v ∈ vs, v.interval.isValid)
    {count : Nat} {seed : UInt64} {trials : List Bindings}
    (h : trials? vs count seed = some trials) {b : Bindings} (hb : b ∈ trials) {name : String}
    {x : Float} (hx : b.get? name = some x) :
    ∃ v, lastNamed? vs name = some v ∧ v.interval.Contains x := by
  obtain ⟨v, hv, t, t', -, hdraw⟩ := exists_draw_of_trials? h hb hx
  exact ⟨v, hv, Interval.contains_of_draw? (hvalid v (lastNamed?_eq_some hv).1) hdraw⟩

/-- So they are finite. -/
theorem isFinite_of_trials? {vs : List Variable} (hvalid : ∀ v ∈ vs, v.interval.isValid)
    {count : Nat} {seed : UInt64} {trials : List Bindings}
    (h : trials? vs count seed = some trials) {b : Bindings} (hb : b ∈ trials) {name : String}
    {x : Float} (hx : b.get? name = some x) : x.isFinite := by
  obtain ⟨v, hv, hcontains⟩ := contains_of_trials? hvalid h hb hx
  exact hcontains.isFinite (hvalid v (lastNamed?_eq_some hv).1)

end FormulaGrading.Sampling
