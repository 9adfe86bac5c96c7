import FormulaGrading.Proofs.Binary64.Rounding

/-!
The bits of floats. A float without a sign is given by its bits, which are the exponent
and the significand without its first bit.
-/

namespace FormulaGrading.Decimal

open Float.Model (Format UnpackedFloat)
open Float.Model.UnpackedFloat

/-- The bits of the float that has the magnitude and no sign. -/
def Dyadic.bits (d : Dyadic) : Nat :=
  if d.significand < leadingBit then d.significand
  else (d.exponent + 1075).toNat * leadingBit + (d.significand - leadingBit)

theorem toNat_packComponents (sign : UnpackedFloat.Sign) (exponent : BitVec 11)
    (mantissa : BitVec 52) :
    (packComponents Format.binary64 sign exponent mantissa).toNat =
      sign.toBitVec.toNat * 2 ^ 63 + exponent.toNat * 2 ^ 52 + mantissa.toNat := by
  show (sign.toBitVec ++ exponent ++ mantissa).toNat = _
  rw [BitVec.toNat_append, BitVec.toNat_append,
    ← Nat.shiftLeft_add_eq_or_of_lt exponent.isLt, ← Nat.shiftLeft_add_eq_or_of_lt mantissa.isLt,
    Nat.shiftLeft_eq, Nat.shiftLeft_eq]
  ring

section

variable (b : BitVec 64)

theorem toNat_unpackMantissa : (@unpackMantissa Format.binary64 b).toNat = b.toNat % 2 ^ 52 := by
  show (b.toNat >>> 0) % 2 ^ 52 = _
  rw [Nat.shiftRight_zero]

theorem toNat_unpackExponent :
    (@unpackExponent Format.binary64 b).toNat = b.toNat / 2 ^ 52 % 2048 := by
  show (b.toNat >>> 52) % 2 ^ 11 = _
  rw [Nat.shiftRight_eq_div_pow]

theorem unpackSign_eq (hb : b.toNat < 2 ^ 63) : @unpackSign Format.binary64 b = 0#1 := by
  apply BitVec.eq_of_toNat_eq
  show (b.toNat >>> 63) % 2 ^ 1 = 0
  rw [Nat.shiftRight_eq_div_pow, Nat.div_eq_of_lt hb]

end

section

variable {d : Dyadic}

theorem Dyadic.IsCanonical.log2_significand (hd : d.IsCanonical) :
    d.significand.log2 + 1 = 53 ↔ leadingBit ≤ d.significand := by
  have hlog : d.significand.log2 < 53 := (Nat.log2_lt hd.pos.ne').2 hd.lt
  have hlarge : 52 ≤ d.significand.log2 ↔ 2 ^ 52 ≤ d.significand := Nat.le_log2 hd.pos.ne'
  have hbit : leadingBit = 2 ^ 52 := rfl
  omega

/-- Packing a magnitude gives its bits. -/
theorem Dyadic.IsCanonical.toNat_pack (hd : d.IsCanonical) :
    (pack Format.binary64 (.finite .positive d.significand d.exponent hd.pos)).toNat =
      d.bits := by
  have hmin := hd.le_exponent
  have hmax := hd.exponent_le
  have hlt := hd.lt
  have hbiased : (d.exponent + Format.binary64.exponentBias +
      Format.binary64.mantissaBitsWithoutImplicit).toNat = (d.exponent + 1075).toNat := by
    show (d.exponent + 1023 + 52).toNat = _
    omega
  have hrange : ¬2 ^ Format.binary64.exponentBits ≤ (d.exponent + 1075).toNat + 1 := by
    show ¬2048 ≤ (d.exponent + 1075).toNat + 1
    omega
  simp only [pack, hbiased, if_neg hrange]
  rw [show Format.binary64.mantissaBits = 53 from rfl]
  simp only [hd.log2_significand, Dyadic.bits]
  split_ifs with hlarge hsmall hsmall
  · omega
  · rw [toNat_packComponents]
    show 0 * 2 ^ 63 + (d.exponent + 1075).toNat % 2 ^ 11 * 2 ^ 52 + d.significand % 2 ^ 52 = _
    unfold leadingBit at hlarge ⊢
    omega
  · rw [toNat_packComponents]
    show 0 * 2 ^ 63 + 0 * 2 ^ 52 + d.significand % 2 ^ 52 = _
    unfold leadingBit at hlarge
    omega
  · omega

theorem Dyadic.IsCanonical.bits_lt (hd : d.IsCanonical) :
    d.bits < 2 ^ 63 := by
  have hmin := hd.le_exponent
  have hmax := hd.exponent_le
  have hlt := hd.lt
  unfold Dyadic.bits leadingBit
  split <;> omega

/-- Unpacking the bits of a magnitude gives the magnitude back. -/
theorem Dyadic.IsCanonical.unpack_bits (hd : d.IsCanonical) {b : BitVec 64}
    (hb : b.toNat = d.bits) :
    unpack Format.binary64 b = .finite .positive d.significand d.exponent hd.pos := by
  have hmin := hd.le_exponent
  have hmax := hd.exponent_le
  have hlt := hd.lt
  have hpos := hd.pos
  have hmantissa := toNat_unpackMantissa b
  have hfield := toNat_unpackExponent b
  have hsign := unpackSign_eq b (hb ▸ hd.bits_lt)
  rw [hb] at hmantissa hfield
  -- an exponent of ones is that of infinity and of no number
  have hones : @unpackExponent Format.binary64 b ≠ -1#_ := by
    intro h
    have h' : d.bits / 2 ^ 52 % 2048 = 2047 := hfield ▸ congrArg BitVec.toNat h
    unfold Dyadic.bits leadingBit at h'
    split at h' <;> omega
  rw [unpack, if_neg hones, hsign]
  unfold Dyadic.bits leadingBit at hmantissa hfield
  split_ifs at hmantissa hfield with hsmall
  · have hzero : @unpackExponent Format.binary64 b = 0#_ := by
      apply BitVec.eq_of_toNat_eq
      show (@unpackExponent Format.binary64 b).toNat = 0
      omega
    have hsome : @unpackMantissa Format.binary64 b ≠ 0#_ := by
      intro h
      have h' : d.significand % 2 ^ 52 = 0 := hmantissa ▸ congrArg BitVec.toNat h
      omega
    have hexp : d.exponent = -1074 := hd.normal.resolve_left (by omega)
    simp only [hzero, dif_neg hsome, if_true, UnpackedFloat.Sign.ofBitVec, finite.injEq, true_and]
    refine ⟨by omega, ?_⟩
    rw [hexp]
    rfl
  · have hzero : @unpackExponent Format.binary64 b ≠ 0#_ := by
      intro h
      have h' : (@unpackExponent Format.binary64 b).toNat = 0 := congrArg BitVec.toNat h
      omega
    have hsignificand : (1#1 ++ @unpackMantissa Format.binary64 b).toNat = d.significand := by
      rw [BitVec.toNat_append, ← Nat.shiftLeft_add_eq_or_of_lt (BitVec.isLt _), Nat.shiftLeft_eq]
      show 1 * 2 ^ 52 + (@unpackMantissa Format.binary64 b).toNat = d.significand
      omega
    simp only [hzero, if_false, UnpackedFloat.Sign.ofBitVec, if_true, finite.injEq, true_and]
    refine ⟨hsignificand, ?_⟩
    show ((@unpackExponent Format.binary64 b).toNat : Int) - (1023 + 52) = d.exponent
    omega

theorem eq_of_toBits_eq {x y : Float} (h : x.toBits = y.toBits) : x = y := by
  obtain ⟨⟨bits, hvalid⟩⟩ := x
  obtain ⟨⟨bits', hvalid'⟩⟩ := y
  obtain rfl : bits = bits' := h
  rfl

/-- A float is made from its magnitude. -/
theorem Dyadic.IsCanonical.ofModel_pack (hd : d.IsCanonical) {x : Float}
    (hx : x.toBits.toNat = d.bits) :
    Float.ofModel (.pack (.finite .positive d.significand d.exponent hd.pos)) = x := by
  apply eq_of_toBits_eq
  apply UInt64.toNat_inj.1
  rw [hx]
  exact hd.toNat_pack

/-- The parts of a float that is made from its magnitude. -/
theorem Dyadic.IsCanonical.unpack_ofModel_pack (hd : d.IsCanonical) :
    (Float.Model.pack (.finite .positive d.significand d.exponent hd.pos)).unpack =
      .finite .positive d.significand d.exponent hd.pos :=
  hd.unpack_bits hd.toNat_pack

end

/-- A finite float without a sign is zero or has a magnitude. -/
theorem isCanonical_ofFloat {x : Float} (hfinite : x.isFinite) (hsign : isNegative x = false)
    (hzero : x.toBits.toNat ≠ 0) :
    (Dyadic.ofFloat x).IsCanonical ∧ x.toBits.toNat = (Dyadic.ofFloat x).bits := by
  have hlt : x.toBits.toNat < 2 ^ 63 := by
    simpa [isNegative] using hsign
  have hfield : x.toBits.toNat / 2 ^ 52 % 2048 ≠ 2047 := by
    intro h
    have hones : @unpackExponent Format.binary64 x.toBits.toBitVec = -1#_ := by
      apply BitVec.eq_of_toNat_eq
      rw [toNat_unpackExponent]
      exact h
    have hunpack : x.isFinite = (unpack Format.binary64 x.toBits.toBitVec).isFinite := rfl
    rw [unpack, if_pos hones] at hunpack
    split at hunpack <;> exact nomatch hunpack ▸ hfinite
  generalize hn : x.toBits.toNat = n at hlt hfield hzero ⊢
  have hfraction := Nat.mod_lt n (show 0 < 2 ^ 52 by decide)
  have hsplit := Nat.div_add_mod n (2 ^ 52)
  by_cases hsubnormal : n / 2 ^ 52 % 2048 = 0
  · have hmagnitude : Dyadic.ofFloat x = ⟨n % 2 ^ 52, -1074⟩ := by
      rw [Dyadic.ofFloat, hn]
      exact if_pos hsubnormal
    rw [hmagnitude]
    refine ⟨⟨?_, ?_, le_rfl, (by decide : (-1074 : Int) ≤ 971), .inr rfl⟩, ?_⟩
    · show 0 < n % 2 ^ 52
      omega
    · show n % 2 ^ 52 < 2 ^ 53
      omega
    · have hbits : Dyadic.bits ⟨n % 2 ^ 52, -1074⟩ = n % 2 ^ 52 := if_pos hfraction
      omega
  · have hmagnitude : Dyadic.ofFloat x =
        ⟨n % 2 ^ 52 + 2 ^ 52, (n / 2 ^ 52 % 2048 : Nat) - 1075⟩ := by
      rw [Dyadic.ofFloat, hn]
      exact if_neg hsubnormal
    rw [hmagnitude]
    generalize n % 2 ^ 52 = fraction at hfraction hsplit ⊢
    have hlarge : ¬fraction + 2 ^ 52 < leadingBit := Nat.not_lt.2 (Nat.le_add_left _ _)
    refine ⟨⟨?_, ?_, ?_, ?_, .inl (Nat.le_add_left _ _)⟩, ?_⟩
    · show 0 < fraction + 2 ^ 52
      omega
    · show fraction + 2 ^ 52 < 2 ^ 53
      omega
    · show -1074 ≤ ((n / 2 ^ 52 % 2048 : Nat) : Int) - 1075
      omega
    · show ((n / 2 ^ 52 % 2048 : Nat) : Int) - 1075 ≤ 971
      omega
    · rw [Dyadic.bits, if_neg hlarge]
      simp only [leadingBit]
      omega

/-- Whether a float is a number without a sign. -/
def IsUnsigned : UnpackedFloat → Prop
  | .zero sign | .infinity sign => sign = .positive
  | .finite sign _ _ _ => sign = .positive
  | .notANumber => False

/-- The bits of floats without a sign are at most those of infinity. -/
theorem toNat_pack_le {u : UnpackedFloat} (h : IsUnsigned u) :
    (pack Format.binary64 u).toNat ≤ 2047 * 2 ^ 52 := by
  have hinfinity : (packedInfinity Format.binary64 .positive).toNat = 2047 * 2 ^ 52 := by
    decide +kernel
  cases u with
  | notANumber => exact h.elim
  | infinity sign =>
      obtain rfl : sign = .positive := h
      exact hinfinity.le
  | zero sign =>
      obtain rfl : sign = .positive := h
      decide +kernel
  | finite sign m e hm =>
      obtain rfl : sign = .positive := h
      simp only [pack]
      generalize (e + Format.binary64.exponentBias +
        Format.binary64.mantissaBitsWithoutImplicit).toNat = biased
      split
      next => exact hinfinity.le
      next hbiased =>
        have hrange : biased < 2047 := by
          have : ¬2048 ≤ biased + 1 := hbiased
          omega
        split <;> rw [toNat_packComponents]
        · show 0 * 2 ^ 63 + biased % 2 ^ 11 * 2 ^ 52 + m % 2 ^ 52 ≤ 2047 * 2 ^ 52
          omega
        · show 0 * 2 ^ 63 + 0 % 2 ^ 11 * 2 ^ 52 + m % 2 ^ 52 ≤ 2047 * 2 ^ 52
          omega

/-- Bits up to those of infinity are the bits of a number without a sign. -/
theorem isUnsigned_unpack {b : BitVec 64} (h : b.toNat ≤ 2047 * 2 ^ 52) :
    IsUnsigned (unpack Format.binary64 b) := by
  have hmantissa := toNat_unpackMantissa b
  have hfield := toNat_unpackExponent b
  have hsign := unpackSign_eq b (Nat.lt_of_le_of_lt h (by decide))
  rw [unpack, hsign]
  split
  next hones =>
    -- with an exponent of ones there is no room for a fraction
    have hones' : b.toNat / 2 ^ 52 % 2048 = 2047 := hfield ▸ congrArg BitVec.toNat hones
    have hzero : @unpackMantissa Format.binary64 b = 0#_ := by
      apply BitVec.eq_of_toNat_eq
      show (@unpackMantissa Format.binary64 b).toNat = 0
      omega
    rw [if_pos hzero]
    rfl
  next =>
    split
    · split <;> rfl
    · rfl

end FormulaGrading.Decimal
