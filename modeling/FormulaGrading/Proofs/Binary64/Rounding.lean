import FormulaGrading.Decimal.Shortest
import Mathlib
import Mathlib.Tactic.Ring

/-!
Rounding to binary64. Significands are rounded with two bits of what was cut off them, which
is enough to tell on which side of the middle between two significands a number lies. So a
number is rounded to the nearest multiple of a unit that its size decides, and numbers in
the rounding interval of a float are rounded to that float.
-/

namespace FormulaGrading.Decimal

open Float.Model (Format UnpackedFloat totalExponent)
open Float.Model.UnpackedFloat

/-- Whether a number has the integral part and the fractional part that it is said to
have. -/
def Describes (m : Nat) (acc : Accuracy) (x : ℚ) : Prop :=
  match acc with
  | .exact => x = m
  | .inexact .lt => (m : ℚ) < x ∧ x < m + 1 / 2
  | .inexact .eq => x = m + 1 / 2
  | .inexact .gt => (m : ℚ) + 1 / 2 < x ∧ x < m + 1

/-- Whether a number is rounded to an integer. -/
def NearestTo (n : Nat) (x : ℚ) : Prop :=
  if n % 2 = 0 then (n : ℚ) - 1 / 2 ≤ x ∧ x ≤ n + 1 / 2
  else (n : ℚ) - 1 / 2 < x ∧ x < n + 1 / 2

section

variable {m n n' : Nat} {acc : Accuracy} {x x' : ℚ}

theorem Describes.le (h : Describes m acc x) : (m : ℚ) ≤ x := by
  unfold Describes at h
  split at h <;> linarith

theorem Describes.lt_add_one (h : Describes m acc x) : x < m + 1 := by
  unfold Describes at h
  split at h <;> linarith

theorem NearestTo.le (h : NearestTo n x) : (n : ℚ) - 1 / 2 ≤ x ∧ x ≤ n + 1 / 2 := by
  unfold NearestTo at h
  split at h
  · exact h
  · exact ⟨h.1.le, h.2.le⟩

theorem nearestTo_of_lt (hlow : (n : ℚ) - 1 / 2 < x) (hhigh : x < n + 1 / 2) :
    NearestTo n x := by
  unfold NearestTo
  split
  · exact ⟨hlow.le, hhigh.le⟩
  · exact ⟨hlow, hhigh⟩

/-- Every number is rounded to an integer next to it. -/
theorem Describes.nearestTo (h : Describes m acc x) :
    NearestTo (acc.roundToNearestEven m) x := by
  unfold Describes at h
  split at h
  next =>
    show NearestTo m x
    exact nearestTo_of_lt (by linarith) (by linarith)
  next =>
    show NearestTo m x
    exact nearestTo_of_lt (by linarith) (by linarith)
  next =>
    -- a tie is rounded to the even one of the two neighbours
    have hbit : ((m % 2 : Nat) : ℚ) ≤ 1 := by
      exact_mod_cast Nat.le_of_lt_succ (Nat.mod_lt m two_pos)
    have hbit' : (0 : ℚ) ≤ (m % 2 : Nat) := Nat.cast_nonneg _
    show NearestTo (m + m % 2) x
    rw [NearestTo, if_pos (by omega), Nat.cast_add]
    exact ⟨by linarith, by linarith⟩
  next =>
    show NearestTo (m + 1) x
    refine nearestTo_of_lt ?_ ?_ <;> push_cast <;> linarith

/-- Larger numbers are rounded to larger integers. -/
theorem NearestTo.mono (h : NearestTo n x) (h' : NearestTo n' x') (hx : x ≤ x') : n ≤ n' := by
  by_contra hlt
  -- both numbers would be the middle between the integers, which would be neighbours
  have hsucc : (n' : ℚ) + 1 ≤ n := by exact_mod_cast Nat.lt_of_not_le hlt
  obtain ⟨hlow, -⟩ := h.le
  obtain ⟨-, hhigh⟩ := h'.le
  have hnext : n = n' + 1 := by
    have hrat : (n : ℚ) = n' + 1 := by linarith
    exact_mod_cast hrat
  have heven : n % 2 = 0 := by
    by_contra hodd
    rw [NearestTo, if_neg hodd] at h
    linarith [h.1]
  have heven' : n' % 2 = 0 := by
    by_contra hodd
    rw [NearestTo, if_neg hodd] at h'
    linarith [h'.2]
  omega

/-- Cutting off a bit halves the number. -/
theorem describes_shiftRightOne {em : ExtendedMantissa}
    (h : Describes em.mantissa em.accuracy x) :
    Describes em.shiftRightOne.mantissa em.shiftRightOne.accuracy (x / 2) := by
  obtain ⟨k, roundBit, stickyBit⟩ := em
  have hsplit : (k : ℚ) = 2 * (k / 2 : Nat) + (k % 2 : Nat) := by
    exact_mod_cast (Nat.div_add_mod k 2).symm
  have hbit : k % 2 = 0 ∨ k % 2 = 1 := by omega
  rcases hbit with hbit | hbit <;> cases roundBit <;> cases stickyBit <;>
    simp only [ExtendedMantissa.shiftRightOne, ExtendedMantissa.accuracy, Describes, hbit,
      bne_self_eq_false, Bool.or_false, Bool.or_true, Bool.or_self, Nat.cast_zero,
      Nat.cast_one, Nat.reduceBneDiff] at h hsplit ⊢ <;>
    first
    | linarith
    | exact ⟨by linarith, by linarith⟩

theorem describes_shiftRight {em : ExtendedMantissa} (h : Describes em.mantissa em.accuracy x)
    (k : Nat) : Describes (em >>> k).mantissa (em >>> k).accuracy (x / 2 ^ k) := by
  induction k with
  | zero =>
      rw [pow_zero, div_one]
      exact h
  | succ k ih =>
      have hhalf := describes_shiftRightOne ih
      rw [div_div, ← pow_succ] at hhalf
      exact hhalf

end

/-- Whether a dyadic is the magnitude of a finite float other than zero. -/
structure Dyadic.IsCanonical (d : Dyadic) : Prop where
  pos : 0 < d.significand
  lt : d.significand < 2 ^ 53
  le_exponent : -1074 ≤ d.exponent
  exponent_le : d.exponent ≤ 971
  normal : 2 ^ 52 ≤ d.significand ∨ d.exponent = -1074

/-- Whether a number lies in a rounding interval. -/
def RoundingInterval.Holds (i : RoundingInterval) (v : ℚ) : Prop :=
  if i.closed then
    (i.low : ℚ) * 2 ^ i.exponent ≤ v ∧ v ≤ i.high * 2 ^ i.exponent
  else (i.low : ℚ) * 2 ^ i.exponent < v ∧ v < i.high * 2 ^ i.exponent

theorem binary64_targetExponent (total : Int) :
    Format.binary64.targetExponent total = max (total - 53) (-1074) := rfl

section

variable {d : Dyadic}

theorem RoundingInterval.holds_mul {i : RoundingInterval} {w : ℚ} :
    i.Holds (w * 2 ^ i.exponent) ↔
      if i.closed then (i.low : ℚ) ≤ w ∧ w ≤ i.high else (i.low : ℚ) < w ∧ w < i.high := by
  have hunit : (0 : ℚ) < 2 ^ i.exponent := by positivity
  unfold RoundingInterval.Holds
  simp only [mul_le_mul_iff_left₀ hunit, mul_lt_mul_iff_left₀ hunit]

theorem mul_zpow_eq_quarters (y : ℚ) (e : Int) : y * 2 ^ e = 4 * y * 2 ^ (e - 2) := by
  rw [zpow_sub₀ two_ne_zero]
  norm_num
  ring

/-- The magnitude itself lies in its interval. -/
theorem Dyadic.IsCanonical.holds_value (hd : d.IsCanonical) :
    (RoundingInterval.ofDyadic d).Holds ((d.significand : ℚ) * 2 ^ d.exponent) := by
  have hlow : (RoundingInterval.ofDyadic d).low < 4 * d.significand := by
    have hpos := hd.pos
    simp only [RoundingInterval.ofDyadic]
    split <;> omega
  have hlow' : ((RoundingInterval.ofDyadic d).low : ℚ) < 4 * d.significand := by
    exact_mod_cast hlow
  have hhigh : (4 * d.significand : ℚ) < (RoundingInterval.ofDyadic d).high := by
    simp [RoundingInterval.ofDyadic]
  rw [mul_zpow_eq_quarters]
  refine (RoundingInterval.holds_mul (i := RoundingInterval.ofDyadic d)).2 ?_
  split
  · exact ⟨hlow'.le, hhigh.le⟩
  · exact ⟨hlow', hhigh⟩

/-- The interval is that of the numbers that are rounded to the significand. Below a power
of two it reaches half as far. -/
theorem Dyadic.IsCanonical.nearestTo (hd : d.IsCanonical) {y : ℚ}
    (hy : (RoundingInterval.ofDyadic d).Holds (y * 2 ^ d.exponent)) :
    NearestTo d.significand y ∧
      (d.significand = 2 ^ 52 → d.exponent ≠ -1074 → (d.significand : ℚ) - 1 / 4 ≤ y) := by
  rw [mul_zpow_eq_quarters] at hy
  generalize hw : 4 * y = w at hy
  replace hw : y = w / 4 := by linarith
  subst hw
  have hquarters : (if d.significand % 2 = 0 then
      (((RoundingInterval.ofDyadic d).low : Nat) : ℚ) ≤ w ∧ w ≤ (4 * d.significand + 2 : Nat)
      else (((RoundingInterval.ofDyadic d).low : Nat) : ℚ) < w ∧
        w < (4 * d.significand + 2 : Nat)) := by
    simpa [RoundingInterval.ofDyadic] using
      (RoundingInterval.holds_mul (i := RoundingInterval.ofDyadic d)).1 hy
  have hpos := hd.pos
  have hlow : 4 * (d.significand : ℚ) - 2 ≤ ((RoundingInterval.ofDyadic d).low : Nat) := by
    have hnat : 4 * d.significand ≤ (RoundingInterval.ofDyadic d).low + 2 := by
      simp only [RoundingInterval.ofDyadic]
      split <;> omega
    have hrat : 4 * (d.significand : ℚ) ≤ ((RoundingInterval.ofDyadic d).low : Nat) + 2 := by
      exact_mod_cast hnat
    linarith
  constructor
  · unfold NearestTo
    split_ifs at hquarters ⊢ with heven <;> push_cast at hquarters <;>
      exact ⟨by linarith [hquarters.1], by linarith [hquarters.2]⟩
  · intro htop hexponent
    have hnat : 4 * d.significand ≤ (RoundingInterval.ofDyadic d).low + 1 := by
      simp [RoundingInterval.ofDyadic, leadingBit, htop, hexponent]
    have hrat : 4 * (d.significand : ℚ) ≤ ((RoundingInterval.ofDyadic d).low : Nat) + 1 := by
      exact_mod_cast hnat
    rw [if_pos (by rw [htop]; decide)] at hquarters
    linarith [hquarters.1]

/-- A significand with all its bits is in place. -/
theorem shift_canonical {m : Nat} {e : Int} (hm : m < 2 ^ 53) (he : -1074 ≤ e) :
    shiftToTargetExponent Format.binary64 m e .exact = (⟨m, false, false⟩, e) := by
  have hlog : m.log2 ≤ 52 := by
    by_cases hzero : m = 0
    · simp [hzero]
    · exact Nat.le_of_lt_succ ((Nat.log2_lt hzero).2 hm)
  have hshift : (Format.binary64.targetExponent (totalExponent m e) - e).toNat = 0 := by
    rw [binary64_targetExponent, totalExponent]
    omega
  rw [shiftToTargetExponent, shiftToExponent, hshift]
  simp only [Int.natCast_zero, Int.add_zero]
  rfl

/-- A significand that was rounded up to a power of two loses its last bit. -/
theorem shift_overflow {e : Int} (he : -1074 ≤ e) :
    shiftToTargetExponent Format.binary64 (2 ^ 53) e .exact = (⟨2 ^ 52, false, false⟩, e + 1) := by
  have hshift : (Format.binary64.targetExponent (totalExponent (2 ^ 53) e) - e).toNat = 1 := by
    rw [binary64_targetExponent, totalExponent, Nat.log2_two_pow]
    omega
  rw [shiftToTargetExponent, shiftToExponent, hshift]
  rfl

/-- Every number in units of a power of two. -/
theorem exists_eq_mul_zpow (v : ℚ) (e : Int) : ∃ y : ℚ, v = y * 2 ^ e :=
  ⟨v / 2 ^ e, (div_mul_cancel₀ _ (by positivity)).symm⟩

theorem lt_of_two_zpow_lt {a b : Int} (h : (2 : ℚ) ^ a < 2 ^ b) : a < b :=
  (zpow_lt_zpow_iff_right₀ one_lt_two).1 h

theorem Describes.scaled_lt {m : Nat} {acc : Accuracy} {x : ℚ} (h : Describes m acc x)
    (e : Int) : x * 2 ^ e < 2 ^ ((m.log2 : Int) + 1 + e) := by
  have hnat : m + 1 ≤ 2 ^ (m.log2 + 1) := Nat.lt_log2_self
  have hrat : (m : ℚ) + 1 ≤ 2 ^ (m.log2 + 1) := by exact_mod_cast hnat
  rw [zpow_add₀ two_ne_zero, ← Nat.cast_succ, zpow_natCast]
  exact mul_lt_mul_of_pos_right (h.lt_add_one.trans_le hrat) (by positivity)

theorem Describes.le_scaled {m : Nat} {acc : Accuracy} {x : ℚ} (h : Describes m acc x)
    (hm : m ≠ 0) (e : Int) : (2 : ℚ) ^ ((m.log2 : Int) + e) ≤ x * 2 ^ e := by
  have hrat : (2 : ℚ) ^ m.log2 ≤ m := by exact_mod_cast Nat.log2_self_le hm
  rw [zpow_add₀ two_ne_zero, zpow_natCast]
  exact mul_le_mul_of_nonneg_right (hrat.trans h.le) (by positivity)

/-- The first shift leaves the number as it is. -/
theorem shiftToExponent_describes {m : Nat} {acc : Accuracy} {x : ℚ} {e target : Int}
    (hm : Describes m acc x) (he : e ≤ target) :
    ∃ (em : ExtendedMantissa) (y : ℚ), shiftToExponent m e acc target = (em, target) ∧
      Describes em.mantissa em.accuracy y ∧ y * 2 ^ target = x * 2 ^ e := by
  have hstart : Describes (ExtendedMantissa.ofMantissaAndAccuracy m acc).mantissa
      (ExtendedMantissa.ofMantissaAndAccuracy m acc).accuracy x := by
    rcases acc with _ | _ | _ | _ <;> exact hm
  obtain ⟨k, rfl⟩ := Int.le.dest he
  refine ⟨_, _, ?_, describes_shiftRight hstart k, ?_⟩
  · rw [shiftToExponent, add_sub_cancel_left, Int.toNat_natCast]
  · rw [zpow_add₀ two_ne_zero, zpow_natCast]
    rw [mul_comm ((2 : ℚ) ^ e), ← mul_assoc, div_mul_cancel₀ _ (by positivity)]

end

/-- Whether a positive number is rounded to so many times a power of two. The unit is the one
that leaves 53 bits, unless that is below the least one. -/
structure RoundsTo (v : ℚ) (unit : Int) (n : Nat) : Prop where
  nearest : NearestTo n (v / 2 ^ unit)
  le_unit : -1074 ≤ unit
  lt : v < 2 ^ (unit + 53)
  le : unit ≠ -1074 → (2 : ℚ) ^ (unit + 52) ≤ v

namespace RoundsTo

variable {v v' : ℚ} {unit unit' : Int} {n n' : Nat}

theorem le_two_pow (h : RoundsTo v unit n) : n ≤ 2 ^ 53 := by
  have hlt : v / 2 ^ unit < 2 ^ 53 := by
    rw [div_lt_iff₀ (by positivity), ← zpow_natCast, ← zpow_add₀ two_ne_zero, add_comm]
    exact h.lt
  have hrat : (n : ℚ) < (2 ^ 53 : Nat) + 1 := by
    push_cast
    linarith [h.nearest.le.1]
  have hnat : n < 2 ^ 53 + 1 := by exact_mod_cast hrat
  omega

theorem two_pow_le (h : RoundsTo v unit n) (hunit : unit ≠ -1074) : 2 ^ 52 ≤ n := by
  have hle : (2 : ℚ) ^ 52 ≤ v / 2 ^ unit := by
    rw [le_div_iff₀ (by positivity), ← zpow_natCast, ← zpow_add₀ two_ne_zero, add_comm]
    exact h.le hunit
  have hrat : ((2 ^ 52 : Nat) : ℚ) < n + 1 := by
    push_cast
    linarith [h.nearest.le.2]
  have hnat : 2 ^ 52 < n + 1 := by exact_mod_cast hrat
  omega

theorem unit_mono (h : RoundsTo v unit n) (h' : RoundsTo v' unit' n') (hv : v ≤ v') :
    unit ≤ unit' := by
  by_cases hunit : unit = -1074
  · exact hunit ▸ h'.le_unit
  · have hbits := lt_of_two_zpow_lt (((h.le hunit).trans hv).trans_lt h'.lt)
    omega

/-- There is one way to round a number. -/
theorem unique (h : RoundsTo v unit n) (h' : RoundsTo v unit' n') : unit = unit' ∧ n = n' := by
  obtain rfl := le_antisymm (h.unit_mono h' le_rfl) (h'.unit_mono h le_rfl)
  exact ⟨rfl, le_antisymm (h.nearest.mono h'.nearest le_rfl) (h'.nearest.mono h.nearest le_rfl)⟩

end RoundsTo

/-- The float of so many units. Where their number needs one bit more than there are, the
next unit is taken. -/
def ofUnits (sign : UnpackedFloat.Sign) (unit : Int) (n : Nat) : UnpackedFloat :=
  if h : n = 0 then .zero sign
  else if n = 2 ^ 53 then .finite sign (2 ^ 52) (unit + 1) (Nat.two_pow_pos 52)
  else .finite sign n unit (Nat.pos_of_ne_zero h)

/-- What is computed by shifting twice is the rounded number. -/
theorem exists_roundsTo (sign : UnpackedFloat.Sign) {m : Nat} {acc : Accuracy} {x : ℚ} {e : Int}
    (hm : Describes m acc x) (he : e ≤ Format.binary64.targetExponent (totalExponent m e)) :
    ∃ unit n, RoundsTo (x * 2 ^ e) unit n ∧
      roundWithAccuracy Format.binary64 sign m e acc = ofUnits sign unit n := by
  obtain ⟨em, y, hshift, hem, hy⟩ := shiftToExponent_describes hm he
  have hupper := hm.scaled_lt e
  have hlower (hzero : m ≠ 0) := hm.le_scaled hzero e
  have htarget : Format.binary64.targetExponent (totalExponent m e) =
      max ((m.log2 : Int) + 1 + e - 53) (-1074) := rfl
  rw [roundWithAccuracy, shiftToTargetExponent, hshift]
  generalize Format.binary64.targetExponent (totalExponent m e) = unit at he htarget hy ⊢
  have hrounds : RoundsTo (x * 2 ^ e) unit em.roundedMantissa := by
    refine ⟨?_, by omega, hupper.trans_le ?_, fun hunit => le_trans ?_ (hlower ?_)⟩
    · rw [← hy, mul_div_cancel_right₀ _ (by positivity)]
      exact hem.nearestTo
    · exact zpow_le_zpow_right₀ one_le_two (by omega)
    · exact zpow_le_zpow_right₀ one_le_two (by omega)
    · rintro rfl
      simp only [Nat.log2_zero] at htarget
      omega
  refine ⟨unit, em.roundedMantissa, hrounds, ?_⟩
  simp only
  rcases hrounds.le_two_pow.lt_or_eq with hlt | htop
  · simp only [shift_canonical hlt hrounds.le_unit, ofUnits, hlt.ne, if_false]
  · simp only [htop, shift_overflow hrounds.le_unit]
    rfl

/-- Numbers in the interval of a float are rounded to its significand, except just below a
power of two, where the unit is half as large. -/
theorem Dyadic.IsCanonical.roundsTo {d : Dyadic} (hd : d.IsCanonical) {v : ℚ}
    (hv : (RoundingInterval.ofDyadic d).Holds v) :
    RoundsTo v d.exponent d.significand ∨
      d.significand = 2 ^ 52 ∧ RoundsTo v (d.exponent - 1) (2 ^ 53) := by
  obtain ⟨y, rfl⟩ := exists_eq_mul_zpow v d.exponent
  obtain ⟨hnearest, hleast⟩ := hd.nearestTo hv
  obtain ⟨hleft, hright⟩ := hnearest.le
  have hunit : (0 : ℚ) < 2 ^ d.exponent := by positivity
  have hmin := hd.le_exponent
  have hlt : y < 2 ^ 53 := by
    have hrat : (d.significand : ℚ) + 1 ≤ 2 ^ 53 := by exact_mod_cast hd.lt
    linarith
  by_cases hbinade : d.exponent = -1074 ∨ (2 : ℚ) ^ 52 ≤ y
  · refine .inl ⟨?_, hmin, ?_, fun hexponent => ?_⟩
    · rwa [mul_div_cancel_right₀ _ hunit.ne']
    · rw [add_comm, zpow_add₀ two_ne_zero]
      exact mul_lt_mul_of_pos_right hlt hunit
    · rw [add_comm, zpow_add₀ two_ne_zero]
      exact mul_le_mul_of_nonneg_right (hbinade.resolve_left hexponent) hunit.le
  · -- the number is closer to the power of two than half a unit, so that twice it is rounded up
    obtain ⟨hexponent, hbelow⟩ := not_or.1 hbinade
    rw [not_le] at hbelow
    have htop : d.significand = 2 ^ 52 := by
      have hlarge := hd.normal.resolve_right hexponent
      have hrat : (d.significand : ℚ) < (2 ^ 52 + 1 : Nat) := by
        push_cast
        linarith
      have hnat : d.significand < 2 ^ 52 + 1 := by exact_mod_cast hrat
      omega
    have hquarter := hleast htop hexponent
    rw [htop] at hquarter
    push_cast at hquarter
    have hhalf : y * 2 ^ d.exponent = 2 * y * 2 ^ (d.exponent - 1) := by
      rw [zpow_sub_one₀ two_ne_zero]
      ring
    rw [hhalf]
    have hunit' : (0 : ℚ) < 2 ^ (d.exponent - 1) := by positivity
    refine .inr ⟨htop, ?_, by omega, ?_, fun _ => ?_⟩
    · rw [mul_div_cancel_right₀ _ hunit'.ne', NearestTo, if_pos (by decide)]
      push_cast
      exact ⟨by linarith, by linarith⟩
    · rw [add_comm, zpow_add₀ two_ne_zero]
      exact mul_lt_mul_of_pos_right (show 2 * y < 2 ^ 53 by linarith) hunit'
    · rw [add_comm, zpow_add₀ two_ne_zero]
      exact mul_le_mul_of_nonneg_right (show (2 : ℚ) ^ 52 ≤ 2 * y by linarith) hunit'.le

/-- Numbers in the interval of a float are rounded to the float. -/
theorem roundWithAccuracy_eq {d : Dyadic} (hd : d.IsCanonical) {sign : UnpackedFloat.Sign}
    {m : Nat} {acc : Accuracy} {x : ℚ} {e : Int} (hm : Describes m acc x)
    (hv : (RoundingInterval.ofDyadic d).Holds (x * 2 ^ e))
    (he : e ≤ Format.binary64.targetExponent (totalExponent m e)) :
    roundWithAccuracy Format.binary64 sign m e acc =
      .finite sign d.significand d.exponent hd.pos := by
  obtain ⟨unit, n, hrounds, heq⟩ := exists_roundsTo sign hm he
  rw [heq, ofUnits]
  rcases hd.roundsTo hv with hrounds' | ⟨htop, hrounds'⟩
  · obtain ⟨rfl, rfl⟩ := hrounds.unique hrounds'
    simp only [hd.pos.ne', hd.lt.ne, dite_false, if_false]
  · obtain ⟨rfl, rfl⟩ := hrounds.unique hrounds'
    simp only [htop, sub_add_cancel]
    rfl

end FormulaGrading.Decimal
