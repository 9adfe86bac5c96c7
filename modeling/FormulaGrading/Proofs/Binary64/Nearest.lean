import FormulaGrading.Decimal.Numeral
import FormulaGrading.Proofs.Binary64.Arithmetic

/-!
Decimals are rounded to the float in whose interval they lie. Small decimals are quotients
or products of floats, and the others are quotients or products of integers, which are
rounded in the same way.
-/

namespace FormulaGrading.Decimal

open Float.Model (Format UnpackedFloat totalExponent)
open Float.Model.UnpackedFloat

/-- A power of two below a power of ten is above it with negative exponents. -/
theorem ten_zpow_pow_le {a b : Nat} (h : (2 : ℚ) ^ a ≤ 10 ^ b) {q : Int} (hq : q ≤ 0) :
    ((10 : ℚ) ^ q) ^ b ≤ 2 ^ (a * q) := by
  obtain ⟨k, hk⟩ := Int.eq_ofNat_of_zero_le (show 0 ≤ -q by omega)
  obtain rfl : q = -k := by omega
  have hpow := inv_anti₀ (by positivity) (pow_le_pow_left₀ (by positivity) h k)
  calc ((10 : ℚ) ^ (-(k : Int))) ^ b = ((10 ^ b) ^ k)⁻¹ := by
        rw [zpow_neg, zpow_natCast, inv_pow, ← pow_mul, ← pow_mul, mul_comm]
    _ ≤ ((2 ^ a) ^ k)⁻¹ := hpow
    _ = 2 ^ ((a : Int) * -k) := by
        rw [mul_neg, zpow_neg, zpow_mul, zpow_natCast, zpow_natCast]

/-- The quotient of the two constants is a little more than the logarithm of two. -/
theorem ten_zpow_le_two_zpow {q t : Int} (h : 100000 * q ≤ 30103 * t) (hlow : -6000 ≤ t)
    (hhigh : t ≤ 6000) : (10 : ℚ) ^ q ≤ 2 ^ (t + 1) := by
  -- the binary logarithm of ten lies between 93 / 28 and 196 / 59
  rcases le_total 0 q with hq | hq
  · obtain ⟨k, rfl⟩ := Int.eq_ofNat_of_zero_le hq
    refine (pow_le_pow_iff_left₀ (by positivity) (by positivity) (show 59 ≠ 0 by decide)).1 ?_
    calc ((10 : ℚ) ^ (k : Int)) ^ 59 = (10 ^ 59) ^ k := by
          rw [zpow_natCast, ← pow_mul, ← pow_mul, mul_comm]
      _ ≤ (2 ^ 196) ^ k := pow_le_pow_left₀ (by positivity) (by norm_num) k
      _ = 2 ^ (196 * (k : Int)) := by
          rw [← pow_mul, ← zpow_natCast]
          push_cast
          rfl
      _ ≤ 2 ^ ((t + 1) * 59) := zpow_le_zpow_right₀ one_le_two (by omega)
      _ = (2 ^ (t + 1)) ^ 59 := by
          rw [zpow_mul]
          rfl
  · refine (pow_le_pow_iff_left₀ (by positivity) (by positivity) (show 28 ≠ 0 by decide)).1 ?_
    calc ((10 : ℚ) ^ q) ^ 28 ≤ 2 ^ (((93 : Nat) : Int) * q) :=
          ten_zpow_pow_le (by norm_num) hq
      _ ≤ 2 ^ ((t + 1) * 28) := zpow_le_zpow_right₀ one_le_two (by push_cast; omega)
      _ = (2 ^ (t + 1)) ^ 28 := by
          rw [zpow_mul]
          rfl

section

variable {d : Dyadic}

/-- Integers with few bits are floats. -/
theorem unpack_toFloat {n : Nat} (hpos : 0 < n) (hlt : n < 2 ^ 53) :
    ∃ (d : Dyadic) (hd : d.IsCanonical), 2 ^ 52 ≤ d.significand ∧
      (d.significand : ℚ) * 2 ^ d.exponent = n ∧
      n.toUInt64.toFloat.toModel.unpack =
        .finite .positive d.significand d.exponent hd.pos := by
  have hlog : n.log2 ≤ 52 := Nat.le_of_lt_succ ((Nat.log2_lt hpos.ne').2 hlt)
  -- shifting by this many bits fills the significand and loses nothing
  obtain ⟨k, hk⟩ := Nat.le.dest hlog
  have hlow : 2 ^ 52 ≤ n * 2 ^ k := by
    rw [← hk, pow_add]
    exact Nat.mul_le_mul_right _ (Nat.log2_self_le hpos.ne')
  have hhigh : n * 2 ^ k < 2 ^ 53 := by
    have hexponent : 53 = n.log2 + 1 + k := by omega
    rw [hexponent, pow_add]
    exact Nat.mul_lt_mul_of_pos_right Nat.lt_log2_self (Nat.two_pow_pos k)
  have hd : Dyadic.IsCanonical ⟨n * 2 ^ k, -(k : Int)⟩ :=
    ⟨by show 0 < n * 2 ^ k; omega, hhigh, by show -1074 ≤ -(k : Int); omega,
      by show -(k : Int) ≤ 971; omega, .inl hlow⟩
  refine ⟨_, hd, hlow, ?_, ?_⟩
  · show ((n * 2 ^ k : Nat) : ℚ) * 2 ^ (-(k : Int)) = n
    rw [zpow_neg, zpow_natCast, Nat.cast_mul, Nat.cast_pow, Nat.cast_two,
      mul_inv_cancel_right₀ (by positivity)]
  · have hmodel : n.toUInt64.toFloat.toModel =
        .pack (UnpackedFloat.ofNat Format.binary64 n.toUInt64.toNat) := rfl
    have hword : n.toUInt64.toNat = n := by
      rw [Nat.toUInt64, UInt64.toNat_ofNat', Nat.mod_eq_of_lt (by omega)]
    have htarget : (-Format.binary64.targetExponent (totalExponent n 0)).toNat = k := by
      rw [binary64_targetExponent, totalExponent]
      omega
    have hround : UnpackedFloat.ofNat Format.binary64 n =
        roundWithAccuracy Format.binary64 .positive (n * 2 ^ k) (-(k : Int)) .exact := by
      have hcompare : compare (n : Int) 0 = .gt := compare_gt_iff_gt.2 (by exact_mod_cast hpos)
      rw [UnpackedFloat.ofNat, UnpackedFloat.ofInt, UnpackedFloat.normalize, hcompare]
      simp only [Int.toNat_natCast, UnpackedFloat.round, decreaseExponent, htarget, zero_sub,
        Nat.shiftLeft_eq]
    have hexact : Describes (n * 2 ^ k) .exact ((n * 2 ^ k : Nat) : ℚ) := rfl
    rw [hmodel, hword, hround,
      roundWithAccuracy_eq hd hexact hd.holds_value (le_targetExponent hlow),
      hd.unpack_ofModel_pack]

/-- Powers of ten with few bits are floats. -/
theorem unpack_powerOfTen {k : Nat} (hk : k < Float.exactlyRepresentablePowersOfTen.size) :
    ∃ (m : Nat) (e : Int) (hm : 0 < m),
      (Float.exactlyRepresentablePowersOfTen[k]).toModel.unpack = .finite .positive m e hm ∧
        (m : ℚ) * 2 ^ e = 10 ^ k := by
  have htable : ∀ k (hk : k < Float.exactlyRepresentablePowersOfTen.size),
      (Float.exactlyRepresentablePowersOfTen[k]).isFinite ∧
      isNegative Float.exactlyRepresentablePowersOfTen[k] = false ∧
      (Float.exactlyRepresentablePowersOfTen[k]).toBits.toNat ≠ 0 ∧
      -52 ≤ (Dyadic.ofFloat Float.exactlyRepresentablePowersOfTen[k]).exponent ∧
      (Dyadic.ofFloat Float.exactlyRepresentablePowersOfTen[k]).significand *
          2 ^ ((Dyadic.ofFloat Float.exactlyRepresentablePowersOfTen[k]).exponent + 52).toNat =
        10 ^ k * 2 ^ 52 := by
    decide +kernel
  obtain ⟨hfinite, hsign, hzero, hexponent, hvalue⟩ := htable k hk
  generalize Float.exactlyRepresentablePowersOfTen[k] = x at *
  obtain ⟨hd, hbits⟩ := isCanonical_ofFloat hfinite hsign hzero
  refine ⟨_, _, hd.pos, hd.unpack_bits hbits, ?_⟩
  obtain ⟨j, hj⟩ := Int.le.dest hexponent
  have hplaces : ((Dyadic.ofFloat x).exponent + 52).toNat = j := by omega
  have hvalue' : ((Dyadic.ofFloat x).significand : ℚ) * 2 ^ j = 10 ^ k * 2 ^ 52 := by
    exact_mod_cast hplaces ▸ hvalue
  rw [← hj, zpow_add₀ two_ne_zero, zpow_natCast, mul_left_comm, hvalue', mul_left_comm]
  norm_num

/-- The numbers that are rounded to floats are neither very small nor very large. -/
theorem Dyadic.IsCanonical.bounds (hd : d.IsCanonical) {v : ℚ}
    (hv : (RoundingInterval.ofDyadic d).Holds v) :
    (2 : ℚ) ^ (-1075 : Int) ≤ v ∧ v ≤ 2 ^ (1024 : Int) := by
  obtain ⟨y, rfl⟩ := exists_eq_mul_zpow v d.exponent
  obtain ⟨hleft, hright⟩ := (hd.nearestTo hv).1.le
  have hpos : (1 : ℚ) ≤ d.significand := by exact_mod_cast hd.pos
  have hlt : (d.significand : ℚ) + 1 ≤ 2 ^ 53 := by exact_mod_cast hd.lt
  have hhalf : (2 : ℚ) ^ (-1 : Int) ≤ y := by
    rw [zpow_neg_one]
    linarith
  have htop : y ≤ (2 : ℚ) ^ (53 : Int) := by
    norm_num at hlt ⊢
    linarith
  constructor
  · calc (2 : ℚ) ^ (-1075 : Int) = 2 ^ (-1 : Int) * 2 ^ (-1074 : Int) :=
          zpow_add₀ two_ne_zero (-1) (-1074)
      _ ≤ y * 2 ^ (-1074 : Int) := mul_le_mul_of_nonneg_right hhalf (by positivity)
      _ ≤ y * 2 ^ d.exponent :=
        mul_le_mul_of_nonneg_left (zpow_le_zpow_right₀ one_le_two hd.le_exponent) (by linarith)
  · calc y * 2 ^ d.exponent ≤ 2 ^ (53 : Int) * 2 ^ d.exponent :=
          mul_le_mul_of_nonneg_right htop (by positivity)
      _ ≤ 2 ^ (53 : Int) * 2 ^ (971 : Int) :=
        mul_le_mul_of_nonneg_left (zpow_le_zpow_right₀ one_le_two hd.exponent_le) (by positivity)
      _ = 2 ^ (1024 : Int) := (zpow_add₀ two_ne_zero 53 971).symm

/-- A quotient or a product of integers in the interval of a float is rounded to the
float. -/
theorem ofScientific_model_eq (hd : d.IsCanonical) {n : Nat} {place : Int} (hn : 0 < n)
    (hlow : -400 - (n.log2 : Int) ≤ place) (hhigh : place ≤ 400)
    (hv : (RoundingInterval.ofDyadic d).Holds ((n : ℚ) * 10 ^ place)) :
    UnpackedFloat.ofScientific Format.binary64 n place =
      .finite .positive d.significand d.exponent hd.pos := by
  have hnotLarge : ¬place > 2 ^ Format.binary64.exponentBits := by
    show ¬place > 2048
    omega
  have hnotSmall : ¬place < -((2 ^ Format.binary64.exponentBits : Int) + n.log2) := by
    show ¬place < -(2048 + (n.log2 : Int))
    omega
  -- the two checks are there to keep powers of ten small
  rw [UnpackedFloat.ofScientific, dif_neg hn.ne', if_neg hnotLarge, if_neg hnotSmall]
  split_ifs with hsign
  · obtain ⟨k, rfl⟩ := Int.eq_ofNat_of_zero_le hsign
    have hlarge : 2 ^ 52 ≤ n <<< 53 := by
      rw [Nat.shiftLeft_eq]
      omega
    have hvalue : ((n <<< 53 : Nat) : ℚ) * 2 ^ (-((53 : Nat) : Int)) *
        ((10 ^ k : Nat) * 2 ^ (0 : Int)) = n * 10 ^ (k : Int) := by
      rw [Nat.shiftLeft_eq, zpow_neg, zpow_zero, mul_one, zpow_natCast]
      push_cast
      rw [mul_assoc (n : ℚ)]
      norm_num
    have hmantissa : Format.binary64.mantissaBits = 53 := rfl
    simp only [hmantissa, Int.toNat_natCast]
    apply mul_eq hd hlarge (Nat.pow_pos (by decide))
    rw [hvalue]
    exact hv
  · obtain ⟨k, hk⟩ := Int.eq_ofNat_of_zero_le (show 0 ≤ -place by omega)
    obtain rfl : place = -k := by omega
    have hvalue : (n : ℚ) * 2 ^ (0 : Int) / ((10 ^ k : Nat) * 2 ^ (0 : Int)) =
        n * 10 ^ (-(k : Int)) := by
      rw [zpow_zero, mul_one, mul_one, zpow_neg, zpow_natCast, div_eq_mul_inv]
      push_cast
      rfl
    simp only [neg_neg, Int.toNat_natCast]
    exact div_eq hd hn (Nat.pow_pos (by decide)) (hvalue ▸ hv)

/-- A decimal in the interval of a float is neither very small nor very large. -/
theorem Dyadic.IsCanonical.place_bounds (hd : d.IsCanonical) {n : Nat} {place : Int}
    (hv : (RoundingInterval.ofDyadic d).Holds ((n : ℚ) * 10 ^ place)) :
    0 < n ∧ place ≤ 400 ∧ -400 - (n.log2 : Int) ≤ place := by
  obtain ⟨hlow, hhigh⟩ := hd.bounds hv
  have hn : 0 < n := by
    refine Nat.pos_of_ne_zero fun hzero => ?_
    rw [hzero, Nat.cast_zero, zero_mul] at hlow
    exact absurd hlow (not_le.2 (by positivity))
  have hone : (1 : ℚ) ≤ n := by exact_mod_cast hn
  refine ⟨hn, not_lt.1 fun hlarge => ?_, not_lt.1 fun hsmall => ?_⟩
  · have hlarge' : (2 : ℚ) ^ (1024 : Int) < n * 10 ^ place :=
      calc (2 : ℚ) ^ (1024 : Int) < 2 ^ (3 * 401 : Int) :=
            zpow_lt_zpow_right₀ one_lt_two (by decide)
        _ = (2 ^ (3 : Int)) ^ (401 : Int) := zpow_mul 2 3 401
        _ ≤ 10 ^ (401 : Int) := zpow_le_zpow_left₀ (by decide) (by positivity) (by norm_num)
        _ ≤ 10 ^ place := zpow_le_zpow_right₀ (by norm_num) hlarge
        _ ≤ n * 10 ^ place := le_mul_of_one_le_left (by positivity) hone
    exact absurd hhigh (not_le.2 hlarge')
  · have hupper := (show Describes n .exact n from rfl).scaled_lt 0
    have hten := ten_zpow_pow_le (a := 3) (b := 1) (by norm_num) (show place ≤ 0 by omega)
    rw [pow_one] at hten
    rw [zpow_zero, mul_one] at hupper
    have hsmall' : (n : ℚ) * 10 ^ place < 2 ^ (-1075 : Int) :=
      calc (n : ℚ) * 10 ^ place < 2 ^ ((n.log2 : Int) + 1 + 0) * 10 ^ place :=
            mul_lt_mul_of_pos_right hupper (by positivity)
        _ ≤ 2 ^ ((n.log2 : Int) + 1 + 0) * 2 ^ ((3 : Nat) * place) :=
            mul_le_mul_of_nonneg_left hten (by positivity)
        _ = 2 ^ ((n.log2 : Int) + 1 + 0 + (3 : Nat) * place) := (zpow_add₀ two_ne_zero _ _).symm
        _ ≤ 2 ^ (-1075 : Int) := zpow_le_zpow_right₀ one_le_two (by push_cast; omega)
    exact absurd hlow (not_le.2 hsmall')

/-- A quotient or a product of small floats in the interval of a float is rounded to the
float. -/
theorem ofScientific_small_eq (hd : d.IsCanonical) {x : Float} (hx : x.toBits.toNat = d.bits)
    {n k : Nat} (hn : 0 < n) (hlt : n < 2 ^ 53)
    (hk : k < Float.exactlyRepresentablePowersOfTen.size) :
    ((RoundingInterval.ofDyadic d).Holds ((n : ℚ) * 10 ^ (-(k : Int))) →
      n.toUInt64.toFloat / Float.exactlyRepresentablePowersOfTen[k] = x) ∧
    ((RoundingInterval.ofDyadic d).Holds ((n : ℚ) * 10 ^ (k : Int)) →
      n.toUInt64.toFloat * Float.exactlyRepresentablePowersOfTen[k] = x) := by
  obtain ⟨d₁, hd₁, hlarge, hvalue₁, hunpack₁⟩ := unpack_toFloat hn hlt
  obtain ⟨m₂, e₂, hm₂, hunpack₂, hvalue₂⟩ := unpack_powerOfTen hk
  rw [← hvalue₁, zpow_neg, zpow_natCast, ← hvalue₂, ← div_eq_mul_inv]
  constructor
  · intro hv
    have hquotient := div_eq hd hd₁.pos hm₂ hv
    rw [← hunpack₁, ← hunpack₂] at hquotient
    exact (congrArg (fun u => Float.ofModel (.pack u)) hquotient).trans (hd.ofModel_pack hx)
  · intro hv
    have hproduct := mul_eq hd hlarge hm₂ hv
    rw [← hunpack₁, ← hunpack₂] at hproduct
    exact (congrArg (fun u => Float.ofModel (.pack u)) hproduct).trans (hd.ofModel_pack hx)

/-- A decimal in the interval of a float is rounded to the float. -/
theorem rounded_eq (hd : d.IsCanonical) {x : Float} (hx : x.toBits.toNat = d.bits) {n : Nat}
    {place : Int} (hv : (RoundingInterval.ofDyadic d).Holds ((n : ℚ) * 10 ^ place)) :
    rounded n place = x := by
  obtain ⟨hn, hhigh, hlow⟩ := hd.place_bounds hv
  have hmodel : Float.ofModel (.ofScientific n place) = x := by
    show Float.ofModel (.pack (UnpackedFloat.ofScientific Format.binary64 n place)) = x
    rw [ofScientific_model_eq hd hn hlow hhigh hv]
    exact hd.ofModel_pack hx
  rw [rounded, if_neg hn.ne', if_neg (not_lt.2 hhigh), if_neg (not_lt.2 hlow)]
  have hsplit : place = (place.natAbs : Int) ∧ ¬place < 0 ∨
      place = -(place.natAbs : Int) ∧ place < 0 := by omega
  generalize place.natAbs = k at hsplit ⊢
  by_cases hsmall : n < 2 ^ 53 ∧ k ≤ 22
  · have hfloats :=
      ofScientific_small_eq hd hx hn hsmall.1 (Nat.lt_succ_of_le hsmall.2)
    rw [Float.ofScientific, dif_pos hsmall]
    rcases hsplit with ⟨rfl, hsign⟩ | ⟨rfl, hsign⟩
    · rw [decide_eq_false hsign]
      exact hfloats.2 hv
    · rw [decide_eq_true hsign]
      exact hfloats.1 hv
  · rw [Float.ofScientific, dif_neg hsmall]
    rcases hsplit with ⟨rfl, hsign⟩ | ⟨rfl, hsign⟩
    · rw [decide_eq_false hsign]
      exact hmodel
    · rw [decide_eq_true hsign]
      show Float.ofModel (.ofScientific n (Int.negOfNat k)) = x
      rw [Int.negOfNat_eq]
      exact hmodel

end

theorem isUnsigned_ofScientific (n : Nat) (place : Int) :
    IsUnsigned (UnpackedFloat.ofScientific Format.binary64 n place) := by
  rw [UnpackedFloat.ofScientific]
  split
  next => rfl
  next =>
    split
    next => rfl
    next =>
      split
      next => rfl
      next =>
        split
        next => exact isUnsigned_mul _ _
        next => exact isUnsigned_div _ _

/-- Decimals are rounded to floats without a sign. -/
theorem toBits_rounded_le (n : Nat) (place : Int) :
    (rounded n place).toBits.toNat ≤ 2047 * 2 ^ 52 := by
  have hmodel (e : Int) : (Float.ofModel (.ofScientific n e)).toBits.toNat ≤ 2047 * 2 ^ 52 :=
    toNat_pack_le (isUnsigned_ofScientific n e)
  unfold rounded
  split
  next => decide +kernel
  next hn =>
    split
    next => decide +kernel
    next =>
      split
      next => decide +kernel
      next =>
        rw [Float.ofScientific]
        split
        next hsmall =>
          obtain ⟨d₁, hd₁, -, -, hunpack₁⟩ := unpack_toFloat (Nat.pos_of_ne_zero hn) hsmall.1
          obtain ⟨m₂, e₂, hm₂, hunpack₂, -⟩ := unpack_powerOfTen (Nat.lt_succ_of_le hsmall.2)
          have hquotient := @isUnsigned_div _ _ d₁.exponent e₂ hd₁.pos hm₂
          have hproduct := @isUnsigned_mul _ _ d₁.exponent e₂ hd₁.pos hm₂
          rw [← hunpack₁, ← hunpack₂] at hquotient hproduct
          split
          next => exact toNat_pack_le hquotient
          next => exact toNat_pack_le hproduct
        next => exact hmodel _

end FormulaGrading.Decimal
