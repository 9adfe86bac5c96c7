import FormulaGrading.Proofs.Binary64.Arithmetic
import FormulaGrading.Proofs.Binary64.Order

/-!
Rounding is monotone. It keeps the order of numbers that are not negative, also where the
unit changes from one power of two to the next and where the result is infinite.
-/

namespace FormulaGrading.Decimal

open Float.Model (Format UnpackedFloat totalExponent)
open Float.Model.UnpackedFloat

/-- Whether a float is a number of a certain rank. -/
structure HasRank (u : UnpackedFloat) (r : Int) : Prop where
  isNumber : u.isNaN = false
  rank_eq : rank u = r

/-- The float that an operation returns, from what it computes. -/
def repack (u : UnpackedFloat) : UnpackedFloat :=
  unpack Format.binary64 (pack Format.binary64 u)

theorem hasRank_repack_zero (sign : UnpackedFloat.Sign) : HasRank (repack (.zero sign)) 0 := by
  cases sign <;> exact ⟨by decide +kernel, by decide +kernel⟩

theorem hasRank_repack_infinity : HasRank (repack (.infinity .positive)) infinityBits :=
  ⟨by decide +kernel, by decide +kernel⟩

/-- What is too large is infinite. -/
theorem hasRank_repack_finite {m : Nat} {e : Int} (hm : 0 < m) (hlt : m < 2 ^ 53)
    (hmin : -1074 ≤ e) (hnormal : 2 ^ 52 ≤ m ∨ e = -1074) :
    HasRank (repack (.finite .positive m e hm))
      (min infinityBits ((e + 1074) * 2 ^ 52 + m)) := by
  by_cases hmax : e ≤ 971
  · have hd : Dyadic.IsCanonical ⟨m, e⟩ := ⟨hm, hlt, hmin, hmax, hnormal⟩
    have hbits : ((Dyadic.bits ⟨m, e⟩ : Nat) : Int) = (e + 1074) * 2 ^ 52 + m := hd.cast_bits
    have hbits_lt := hd.bits_lt_infinityBits
    have hrepack : repack (.finite .positive m e hm) = .finite .positive m e hm :=
      hd.unpack_bits hd.toNat_pack
    rw [hrepack]
    refine ⟨rfl, ?_⟩
    show ((Dyadic.bits ⟨m, e⟩ : Nat) : Int) = _
    omega
  · have hlarge : 2 ^ 52 ≤ m := hnormal.resolve_right (by omega)
    have hbiased : 2 ^ Format.binary64.exponentBits ≤ (e + Format.binary64.exponentBias +
        Format.binary64.mantissaBitsWithoutImplicit).toNat + 1 := by
      show 2048 ≤ (e + 1023 + 52).toNat + 1
      omega
    have hrepack : repack (.finite .positive m e hm) = repack (.infinity .positive) := by
      simp only [repack, pack, if_pos hbiased]
    have hrank : min (infinityBits : Int) ((e + 1074) * 2 ^ 52 + m) = infinityBits := by
      unfold infinityBits
      omega
    rw [hrepack, hrank]
    exact hasRank_repack_infinity

/-- The rank of a rounded number is that of the unit, plus the number of units. -/
theorem hasRank_repack_ofUnits {v : ℚ} {unit : Int} {n : Nat} (h : RoundsTo v unit n) :
    HasRank (repack (ofUnits .positive unit n))
      (min infinityBits ((unit + 1074) * 2 ^ 52 + n)) := by
  have hmin := h.le_unit
  have hnormal := h.two_pow_le
  unfold ofUnits
  split_ifs with hzero htop
  · have hrank : min (infinityBits : Int) ((unit + 1074) * 2 ^ 52 + n) = 0 := by
      have : 0 < infinityBits := by decide
      omega
    rw [hrank]
    exact hasRank_repack_zero _
  · have hrank : (unit + 1074) * 2 ^ 52 + (n : Int) =
        (unit + 1 + 1074) * 2 ^ 52 + (2 ^ 52 : Nat) := by
      rw [htop]
      push_cast
      ring
    rw [hrank]
    exact hasRank_repack_finite _ (by decide) (by omega) (.inl le_rfl)
  · refine hasRank_repack_finite _ (lt_of_le_of_ne h.le_two_pow htop) hmin ?_
    by_cases hunit : unit = -1074
    · exact .inr hunit
    · exact .inl (hnormal hunit)

/-- Where the unit changes, the last integer for the smaller one is at most the first for
the larger one. -/
theorem RoundsTo.mono {v v' : ℚ} {unit unit' : Int} {n n' : Nat} (h : RoundsTo v unit n)
    (h' : RoundsTo v' unit' n') (hv : v ≤ v') :
    (unit + 1074) * 2 ^ 52 + n ≤ (unit' + 1074) * 2 ^ 52 + n' := by
  have hle := h.le_two_pow
  rcases (h.unit_mono h' hv).lt_or_eq with hlt | rfl
  · have hlarge := h'.two_pow_le (by have := h.le_unit; omega)
    omega
  · have hn := h.nearest.mono h'.nearest (div_le_div_of_nonneg_right hv (by positivity))
    omega

/-- Whether a float is a number that is not negative. -/
def IsNonneg : UnpackedFloat → Prop
  | .zero _ => True
  | .infinity sign | .finite sign .. => sign = .positive
  | .notANumber => False

theorem isNonneg_iff {u : UnpackedFloat} (hu : InForm u) :
    IsNonneg u ↔ u.isNaN = false ∧ 0 ≤ rank u := by
  cases u with
  | notANumber => exact iff_of_false id nofun
  | zero s => exact iff_of_true trivial ⟨rfl, le_rfl⟩
  | infinity s =>
      cases s <;> simp [IsNonneg, UnpackedFloat.isNaN, rank, UnpackedFloat.Sign.apply,
        infinityBits]
  | finite s m e hm =>
      have hpos := Dyadic.IsCanonical.bits_pos hu
      cases s <;> simp [IsNonneg, UnpackedFloat.isNaN, rank, UnpackedFloat.Sign.apply, hpos.ne']

/-- A product of significands is not too short to be rounded, or has an exponent far below
the least one. -/
theorem le_targetExponent_mul {m₁ m₂ : Nat} {e₁ e₂ : Int}
    (h₁ : Dyadic.IsCanonical ⟨m₁, e₁⟩) (h₂ : Dyadic.IsCanonical ⟨m₂, e₂⟩) :
    e₁ + e₂ ≤ Format.binary64.targetExponent (totalExponent (m₁ * m₂) (e₁ + e₂)) := by
  rcases h₁.normal with hlarge | hleast
  · exact le_targetExponent (hlarge.trans (Nat.le_mul_of_pos_right _ h₂.pos))
  · rcases h₂.normal with hlarge | hleast'
    · exact le_targetExponent (hlarge.trans (Nat.le_mul_of_pos_left _ h₁.pos))
    · have hleast : e₁ = -1074 := hleast
      have hleast' : e₂ = -1074 := hleast'
      rw [binary64_targetExponent]
      omega

/-- Magnitudes are ordered like their bits. -/
theorem value_le_of_bits_le {d d' : Dyadic} (hd : d.IsCanonical) (hd' : d'.IsCanonical)
    (h : d.bits ≤ d'.bits) :
    (d.significand : ℚ) * 2 ^ d.exponent ≤ d'.significand * 2 ^ d'.exponent := by
  have hbits := hd.cast_bits
  have hbits' := hd'.cast_bits
  have hlt := hd.lt
  have hlt' := hd'.lt
  have hmin := hd.le_exponent
  rcases Int.lt_trichotomy d.exponent d'.exponent with hexp | hexp | hexp
  · have hlarge : 2 ^ 52 ≤ d'.significand := hd'.normal.resolve_right (by omega)
    have hrat : (d.significand : ℚ) ≤ 2 ^ 53 := by exact_mod_cast hlt.le
    have hrat' : (2 : ℚ) ^ 52 ≤ d'.significand := by exact_mod_cast hlarge
    calc (d.significand : ℚ) * 2 ^ d.exponent
        ≤ 2 ^ 53 * 2 ^ d.exponent := mul_le_mul_of_nonneg_right hrat (by positivity)
      _ = 2 ^ 52 * 2 ^ (d.exponent + 1) := by
          rw [zpow_add_one₀ two_ne_zero]
          ring
      _ ≤ d'.significand * 2 ^ d'.exponent :=
          mul_le_mul hrat' (zpow_le_zpow_right₀ one_le_two (by omega)) (by positivity)
            (by positivity)
  · have hle : d.significand ≤ d'.significand := by
      rw [hexp] at hbits
      omega
    rw [hexp]
    exact mul_le_mul_of_nonneg_right (by exact_mod_cast hle) (by positivity)
  · -- a larger exponent makes for more bits
    have hlarge : 2 ^ 52 ≤ d.significand := hd.normal.resolve_right (by
      have := hd'.le_exponent
      omega)
    omega

end FormulaGrading.Decimal
