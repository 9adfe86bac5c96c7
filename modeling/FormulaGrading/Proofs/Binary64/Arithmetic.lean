import FormulaGrading.Proofs.Binary64.Packing

/-!
Products and quotients of floats. They are rounded to the float in whose interval the exact
product or quotient lies.
-/

namespace FormulaGrading.Decimal

open Float.Model (Format UnpackedFloat totalExponent)
open Float.Model.UnpackedFloat

section

variable {d : Dyadic}

/-- A significand with all its bits is not too short to be rounded. -/
theorem le_targetExponent {m : Nat} {e : Int} (hm : 2 ^ 52 ≤ m) :
    e ≤ Format.binary64.targetExponent (totalExponent m e) := by
  have hbits : 52 ≤ m.log2 := (Nat.le_log2 (by omega)).2 hm
  rw [binary64_targetExponent, totalExponent]
  omega

theorem cast_mul_zpow_add (m₁ m₂ : Nat) (e₁ e₂ : Int) :
    ((m₁ * m₂ : Nat) : ℚ) * 2 ^ (e₁ + e₂) = m₁ * 2 ^ e₁ * (m₂ * 2 ^ e₂) := by
  rw [zpow_add₀ two_ne_zero]
  push_cast
  ring

/-- A product in the interval of a float is rounded to the float. -/
theorem mul_eq (hd : d.IsCanonical) {m₁ m₂ : Nat} {e₁ e₂ : Int} (h₁ : 2 ^ 52 ≤ m₁)
    (h₂ : 0 < m₂)
    (hv : (RoundingInterval.ofDyadic d).Holds ((m₁ : ℚ) * 2 ^ e₁ * (m₂ * 2 ^ e₂))) :
    UnpackedFloat.mul Format.binary64
        (.finite .positive m₁ e₁ (Nat.lt_of_lt_of_le (Nat.two_pow_pos 52) h₁))
        (.finite .positive m₂ e₂ h₂) =
      .finite .positive d.significand d.exponent hd.pos := by
  have hlarge : 2 ^ 52 ≤ m₁ * m₂ := h₁.trans (Nat.le_mul_of_pos_right _ h₂)
  have hexact : Describes (m₁ * m₂) .exact ((m₁ * m₂ : Nat) : ℚ) := rfl
  exact roundWithAccuracy_eq hd hexact (cast_mul_zpow_add .. ▸ hv) (le_targetExponent hlarge)

/-- The remainder tells on which side of the middle the quotient lies. -/
theorem describes_accuracyOfFraction {n k : Nat} (hk : 0 < k) :
    Describes (n / k) (accuracyOfFraction (n % k) k) ((n : ℚ) / k) := by
  have hsplit : (n : ℚ) = (n / k : Nat) * k + (n % k : Nat) := by
    exact_mod_cast (Nat.div_add_mod' n k).symm
  have hpos : (0 : ℚ) < k := by exact_mod_cast hk
  have hquotient : (n : ℚ) / k = (n / k : Nat) + (n % k : Nat) / k := by
    conv_lhs => rw [hsplit, add_div, mul_div_cancel_right₀ _ hpos.ne']
  have hlt := Nat.mod_lt n hk
  rw [hquotient]
  generalize n / k = q
  generalize n % k = r at hlt ⊢
  have hrest : (r : ℚ) / k < 1 := (div_lt_one₀ hpos).2 (by exact_mod_cast hlt)
  rw [accuracyOfFraction]
  split_ifs with hzero
  · show (q : ℚ) + (r : Nat) / k = q
    simp [hzero]
  · -- the quotient lies as far behind the integer as the remainder says
    have hsome : (0 : ℚ) < r / k := div_pos (by exact_mod_cast Nat.pos_of_ne_zero hzero) hpos
    rcases Nat.lt_trichotomy (2 * r) k with hmiddle | hmiddle | hmiddle
    · have hside : (r : ℚ) / k < 1 / 2 := by
        rw [div_lt_div_iff₀ hpos two_pos, one_mul, mul_comm]
        exact_mod_cast hmiddle
      rw [Nat.compare_eq_lt.2 hmiddle]
      exact ⟨by linarith, by linarith⟩
    · have hside : (r : ℚ) / k = 1 / 2 := by
        rw [div_eq_div_iff hpos.ne' two_ne_zero, one_mul, mul_comm]
        exact_mod_cast hmiddle
      rw [Nat.compare_eq_eq.2 hmiddle]
      show (q : ℚ) + r / k = q + 1 / 2
      rw [hside]
    · have hside : 1 / 2 < (r : ℚ) / k := by
        rw [div_lt_div_iff₀ two_pos hpos, one_mul, mul_comm]
        exact_mod_cast hmiddle
      rw [Nat.compare_eq_gt.2 hmiddle]
      exact ⟨by linarith, by linarith⟩

theorem targetExponent_mono {s t : Int} (h : s ≤ t) :
    Format.binary64.targetExponent s ≤ Format.binary64.targetExponent t := by
  rw [binary64_targetExponent, binary64_targetExponent]
  omega

/-- A quotient in the interval of a float is rounded to the float. -/
theorem div_eq (hd : d.IsCanonical) {m₁ m₂ : Nat} {e₁ e₂ : Int} (h₁ : 0 < m₁) (h₂ : 0 < m₂)
    (hv : (RoundingInterval.ofDyadic d).Holds ((m₁ : ℚ) * 2 ^ e₁ / (m₂ * 2 ^ e₂))) :
    UnpackedFloat.div Format.binary64 (.finite .positive m₁ e₁ h₁)
        (.finite .positive m₂ e₂ h₂) =
      .finite .positive d.significand d.exponent hd.pos := by
  rw [UnpackedFloat.div, divCore]
  generalize htotal : totalExponent m₁ e₁ - totalExponent m₂ e₂ = total
  generalize htarget : min (e₁ - e₂) (Format.binary64.targetExponent total) = target
  obtain ⟨k, hk⟩ := Int.le.dest (htarget ▸ min_le_left (e₁ - e₂) _)
  have hshift : (e₁ - e₂ - target).toNat = k := by omega
  simp only [hshift]
  have hvalue : ((m₁ <<< k : Nat) : ℚ) / m₂ * 2 ^ target =
      (m₁ : ℚ) * 2 ^ e₁ / (m₂ * 2 ^ e₂) := by
    have hexponent : (2 : ℚ) ^ e₁ = 2 ^ target * 2 ^ k * 2 ^ e₂ := by
      rw [← zpow_natCast, ← zpow_add₀ two_ne_zero, hk, ← zpow_add₀ two_ne_zero, sub_add_cancel]
    have hunit : (2 : ℚ) ^ e₂ ≠ 0 := by positivity
    rw [hexponent, ← mul_assoc, mul_div_mul_right _ _ hunit, Nat.shiftLeft_eq]
    push_cast
    ring
  have hdescribes := describes_accuracyOfFraction (n := m₁ <<< k) h₂
  refine roundWithAccuracy_eq hd hdescribes (hvalue ▸ hv) ?_
  -- the quotient has at least as many bits as the exponent was chosen for
  have hlower : (2 : ℚ) ^ (total - 1) < 2 ^ (((m₁ <<< k / m₂).log2 : Int) + 1 + target) := by
    refine lt_trans ?_ (hdescribes.scaled_lt target)
    have hnumerator := (show Describes m₁ .exact m₁ from rfl).le_scaled h₁.ne' e₁
    have hdenominator := (show Describes m₂ .exact m₂ from rfl).scaled_lt e₂
    have hpos : (0 : ℚ) < m₂ * 2 ^ e₂ := mul_pos (by exact_mod_cast h₂) (by positivity)
    rw [hvalue, lt_div_iff₀ hpos]
    calc (2 : ℚ) ^ (total - 1) * (m₂ * 2 ^ e₂)
        < 2 ^ (total - 1) * 2 ^ ((m₂.log2 : Int) + 1 + e₂) :=
          mul_lt_mul_of_pos_left hdenominator (by positivity)
      _ = 2 ^ ((m₁.log2 : Int) + e₁) := by
          rw [← zpow_add₀ two_ne_zero, ← htotal, totalExponent, totalExponent]
          congr 1
          ring
      _ ≤ m₁ * 2 ^ e₁ := hnumerator
  have hbits := lt_of_two_zpow_lt hlower
  calc target ≤ Format.binary64.targetExponent total := htarget ▸ min_le_right _ _
    _ ≤ _ := targetExponent_mono (by rw [totalExponent]; omega)

end

theorem isUnsigned_roundWithAccuracy (m : Nat) (e : Int) (acc : Accuracy) :
    IsUnsigned (roundWithAccuracy Format.binary64 .positive m e acc) := by
  simp only [roundWithAccuracy]
  split <;> rfl

theorem isUnsigned_mul {m₁ m₂ : Nat} {e₁ e₂ : Int} (h₁ : 0 < m₁) (h₂ : 0 < m₂) :
    IsUnsigned (UnpackedFloat.mul Format.binary64 (.finite .positive m₁ e₁ h₁)
      (.finite .positive m₂ e₂ h₂)) :=
  isUnsigned_roundWithAccuracy _ _ _

theorem isUnsigned_div {m₁ m₂ : Nat} {e₁ e₂ : Int} (h₁ : 0 < m₁) (h₂ : 0 < m₂) :
    IsUnsigned (UnpackedFloat.div Format.binary64 (.finite .positive m₁ e₁ h₁)
      (.finite .positive m₂ e₂ h₂)) :=
  isUnsigned_roundWithAccuracy _ _ _

end FormulaGrading.Decimal
