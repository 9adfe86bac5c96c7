import FormulaGrading.Proofs.Binary64.Packing

/-!
Finite floats are told by their exponent, which a change of sign does not touch. They are
the ones that leave nothing when taken from themselves.
-/

namespace FormulaGrading.Decimal

open Float.Model (Format UnpackedFloat)
open Float.Model.UnpackedFloat

/-- Only infinities and no number have an exponent of ones. -/
theorem isFinite_unpack_iff {b : BitVec 64} :
    (unpack Format.binary64 b).isFinite ↔ b.toNat / 2 ^ 52 % 2048 ≠ 2047 := by
  have hones : @unpackExponent Format.binary64 b = -1#_ ↔ b.toNat / 2 ^ 52 % 2048 = 2047 := by
    rw [← toNat_unpackExponent]
    exact ⟨congrArg BitVec.toNat, fun h => BitVec.eq_of_toNat_eq h⟩
  rw [unpack, Ne, ← hones]
  split
  next h =>
    refine iff_of_false ?_ (not_not_intro h)
    split <;> exact Bool.false_ne_true
  next h =>
    refine iff_of_true ?_ h
    split
    · split <;> rfl
    · rfl

variable {sign : UnpackedFloat.Sign} {m : Nat} {e : Int} {hm : 0 < m}

/-- The exponents of finite numbers are in range. -/
theorem exponent_le_of_unpack {b : BitVec 64}
    (h : unpack Format.binary64 b = .finite sign m e hm) : e ≤ 971 := by
  have hfield := toNat_unpackExponent b
  have hfinite : b.toNat / 2 ^ 52 % 2048 ≠ 2047 := isFinite_unpack_iff.1 (h ▸ rfl)
  rw [unpack] at h
  split at h
  next => split at h <;> exact nomatch h
  next =>
    split at h
    next hzero =>
      split at h
      next => exact nomatch h
      next =>
        obtain ⟨-, -, rfl⟩ := finite.inj h
        show ((@unpackExponent Format.binary64 b).toNat : Int) - (1023 + 52) + 1 ≤ 971
        rw [hzero]
        decide
    next =>
      obtain ⟨-, -, rfl⟩ := finite.inj h
      show ((@unpackExponent Format.binary64 b).toNat : Int) - (1023 + 52) ≤ 971
      omega

/-- What is unpacked has a significand with all its bits, or the least exponent. -/
theorem isCanonical_of_unpack {b : BitVec 64}
    (h : unpack Format.binary64 b = .finite sign m e hm) : Dyadic.IsCanonical ⟨m, e⟩ := by
  have hmax := exponent_le_of_unpack h
  have hfield := toNat_unpackExponent b
  rw [unpack] at h
  split at h
  next => split at h <;> exact nomatch h
  next =>
    split at h
    next hzero =>
      split at h
      next => exact nomatch h
      next =>
        obtain ⟨-, rfl, rfl⟩ := finite.inj h
        have hlt := (@unpackMantissa Format.binary64 b).isLt
        have hexp : ((@unpackExponent Format.binary64 b).toNat : Int) - (1023 + 52) + 1 =
            -1074 := by
          rw [hzero]
          rfl
        exact ⟨hm, hlt.trans (by decide), hexp.ge, hmax, .inr hexp⟩
    next hsome =>
      obtain ⟨-, rfl, rfl⟩ := finite.inj h
      have hpos : (@unpackExponent Format.binary64 b).toNat ≠ 0 := fun hzero =>
        hsome (BitVec.eq_of_toNat_eq hzero)
      have hvalue : (1#1 ++ @unpackMantissa Format.binary64 b).toNat =
          2 ^ 52 + (@unpackMantissa Format.binary64 b).toNat := by
        rw [BitVec.toNat_append, ← Nat.shiftLeft_add_eq_or_of_lt (BitVec.isLt _),
          Nat.shiftLeft_eq]
        rfl
      have hlt : (@unpackMantissa Format.binary64 b).toNat < 2 ^ 52 := BitVec.isLt _
      refine ⟨hm, ?_, ?_, hmax, .inl ?_⟩
      · show (1#1 ++ @unpackMantissa Format.binary64 b).toNat < 2 ^ 53
        omega
      · show -1074 ≤ ((@unpackExponent Format.binary64 b).toNat : Int) - (1023 + 52)
        omega
      · show 2 ^ 52 ≤ (1#1 ++ @unpackMantissa Format.binary64 b).toNat
        omega

/-- Numbers with exponents in range are packed as finite ones. -/
theorem isFinite_pack (he : e ≤ 971) :
    (unpack Format.binary64 (pack Format.binary64 (.finite sign m e hm))).isFinite := by
  have hbiased : ¬2 ^ Format.binary64.exponentBits ≤ (e + Format.binary64.exponentBias +
      Format.binary64.mantissaBitsWithoutImplicit).toNat + 1 := by
    show ¬2048 ≤ (e + 1023 + 52).toNat + 1
    omega
  rw [isFinite_unpack_iff]
  simp only [pack, if_neg hbiased]
  generalize hk : (e + Format.binary64.exponentBias +
      Format.binary64.mantissaBitsWithoutImplicit).toNat = k at hbiased
  replace hbiased : ¬2048 ≤ k + 1 := hbiased
  have hmantissa := Nat.mod_lt m (Nat.two_pow_pos 52)
  split <;> rw [toNat_packComponents]
  · show (sign.toBitVec.toNat * 2 ^ 63 + k % 2 ^ 11 * 2 ^ 52 + m % 2 ^ 52) / 2 ^ 52 % 2048 ≠ 2047
    omega
  · show (sign.toBitVec.toNat * 2 ^ 63 + 0 * 2 ^ 52 + m % 2 ^ 52) / 2 ^ 52 % 2048 ≠ 2047
    omega

/-- A change of sign makes no number finite, and none infinite. -/
@[simp] theorem isFinite_neg (x : Float) : (-x).isFinite = x.isFinite := by
  show (unpack Format.binary64 (pack Format.binary64 (neg x.toModel.unpack))).isFinite =
    x.toModel.unpack.isFinite
  cases h : x.toModel.unpack with
  | notANumber => decide +kernel
  | infinity sign => cases sign <;> decide +kernel
  | zero sign => cases sign <;> decide +kernel
  | finite sign m e hm => exact isFinite_pack (exponent_le_of_unpack h)

theorem unpack_pack_infinity :
    unpack Format.binary64 (pack Format.binary64 (.infinity .positive)) =
      .infinity .positive := by
  with_unfolding_all rfl

theorem unpack_pack_zero :
    unpack Format.binary64 (pack Format.binary64 (.zero .positive)) = .zero .positive := by
  with_unfolding_all rfl

theorem unpack_abs (x : Float) : x.abs.toModel.unpack = x.toModel.unpack.abs := by
  show unpack Format.binary64 (pack Format.binary64 x.toModel.unpack.abs) = _
  cases h : x.toModel.unpack with
  | notANumber => rfl
  | infinity s => exact unpack_pack_infinity
  | zero s => exact unpack_pack_zero
  | finite s m e hm =>
      have hd := isCanonical_of_unpack h
      exact hd.unpack_bits hd.toNat_pack

@[simp] theorem isFinite_abs (x : Float) : x.abs.isFinite = x.isFinite := by
  show x.abs.toModel.unpack.isFinite = x.toModel.unpack.isFinite
  rw [unpack_abs]
  cases x.toModel.unpack <;> rfl

theorem sub_self_float {x : Float} (hx : x.isFinite) : x - x = 0.0 := by
  have hsub : UnpackedFloat.sub Format.binary64 x.toModel.unpack x.toModel.unpack =
      .zero .positive := by
    replace hx : x.toModel.unpack.isFinite := hx
    cases h : x.toModel.unpack with
    | notANumber => exact nomatch h ▸ hx
    | infinity s => exact nomatch h ▸ hx
    | zero s => cases s <;> rfl
    | finite s m e hm =>
        simp only [UnpackedFloat.sub, Int.sub_self]
        rfl
  show Float.ofModel (.pack _) = _
  rw [hsub]
  decide +kernel

end FormulaGrading.Decimal
