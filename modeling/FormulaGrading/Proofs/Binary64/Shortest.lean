import FormulaGrading.Proofs.Binary64.Nearest

/-!
The shortest decimal of a float lies in the interval of the float. The search for it ends,
because the powers of ten get smaller than the interval.
-/

namespace FormulaGrading.Decimal

section

variable {i : RoundingInterval} {place : Int} {n : Nat}

/-- The unit of the grid. -/
theorem RoundingInterval.exists_unit (i : RoundingInterval) (place : Int) :
    ∃ c : ℚ, 0 < c ∧
      ((Nat.pow 2 i.exponent.toNat * Nat.pow 10 (-place).toNat : Nat) : ℚ) =
        2 ^ i.exponent * c ∧
      ((i.grid place).step : ℚ) = 10 ^ place * c := by
  have hsplit {b : ℚ} (hb : b ≠ 0) (e : Int) : b ^ e.toNat = b ^ e * b ^ (-e).toNat := by
    rw [← zpow_natCast, ← zpow_natCast, ← zpow_add₀ hb]
    congr 1
    omega
  refine ⟨2 ^ (-i.exponent).toNat * 10 ^ (-place).toNat, by positivity, ?_, ?_⟩
  · show ((2 ^ i.exponent.toNat * 10 ^ (-place).toNat : Nat) : ℚ) = _
    push_cast
    rw [hsplit two_ne_zero i.exponent]
    ring
  · show ((2 ^ (-i.exponent).toNat * 10 ^ place.toNat : Nat) : ℚ) = _
    push_cast
    rw [hsplit (by norm_num) place]
    ring

/-- The grid admits the multiples that lie in the interval. -/
theorem RoundingInterval.admits_iff :
    (i.grid place).admits n = true ↔ i.Holds (n * 10 ^ place) := by
  obtain ⟨c, hc, hscale, hstep⟩ := i.exists_unit place
  have hmultiple : ((n * (i.grid place).step : Nat) : ℚ) = n * 10 ^ place * c := by
    rw [Nat.cast_mul, hstep, mul_assoc]
  have hlow : ((i.grid place).low : ℚ) = i.low * 2 ^ i.exponent * c := by
    rw [RoundingInterval.grid, Nat.cast_mul, hscale, mul_assoc]
  have hhigh : ((i.grid place).high : ℚ) = i.high * 2 ^ i.exponent * c := by
    rw [RoundingInterval.grid, Nat.cast_mul, hscale, mul_assoc]
  have hclosed : (i.grid place).closed = i.closed := rfl
  unfold Grid.admits RoundingInterval.Holds
  cases h : i.closed
  · simp only [hclosed, h, Bool.false_eq_true, if_false, Bool.and_eq_true, decide_eq_true_iff]
    rw [← @Nat.cast_lt ℚ, ← @Nat.cast_lt ℚ, hmultiple, hlow, hhigh, mul_lt_mul_iff_left₀ hc,
      mul_lt_mul_iff_left₀ hc]
  · simp only [hclosed, h, if_true, Bool.and_eq_true, decide_eq_true_iff]
    rw [← @Nat.cast_le ℚ, ← @Nat.cast_le ℚ, hmultiple, hlow, hhigh, mul_le_mul_iff_left₀ hc,
      mul_le_mul_iff_left₀ hc]

theorem Grid.admits_of_nearest? {g : Grid} (h : g.nearest? = some n) : g.admits n = true := by
  cases hbelow : g.admits (g.value / g.step) <;>
    cases habove : g.admits (g.value / g.step + 1) <;>
    simp only [Grid.nearest?, hbelow, habove, Option.some.injEq, reduceCtorEq] at h
  · exact h ▸ habove
  · exact h ▸ hbelow
  · split at h
    · exact h ▸ hbelow
    · exact h ▸ habove

theorem RoundingInterval.holds_of_search {tries : Nat} {s : Scaled}
    (h : i.search tries place = some s) : i.Holds (s.digits * 10 ^ s.exponent) := by
  induction tries generalizing place with
  | zero => exact nomatch h
  | succ tries ih =>
      unfold RoundingInterval.search at h
      split at h
      next n hnearest =>
        obtain rfl := Option.some.inj h
        exact RoundingInterval.admits_iff.1 (Grid.admits_of_nearest? hnearest)
      next => exact ih h

/-- A power of ten that is small enough has a multiple above the number in the
interval. -/
theorem RoundingInterval.nearest?_isSome (hhigh : i.high = i.value + 2) (hlow : i.low ≤ i.value)
    (hplace : (10 : ℚ) ^ place < 2 ^ (i.exponent + 1)) : (i.grid place).nearest?.isSome := by
  obtain ⟨c, hc, hscale, hstep⟩ := i.exists_unit place
  generalize hg : Nat.pow 2 i.exponent.toNat * Nat.pow 10 (-place).toNat = scale at hscale
  have hfine : (i.grid place).step < 2 * scale := by
    rw [← @Nat.cast_lt ℚ, hstep, Nat.cast_mul, hscale, Nat.cast_two, ← mul_assoc,
      ← zpow_one_add₀ two_ne_zero, add_comm]
    exact mul_lt_mul_of_pos_right hplace hc
  have hpos : 0 < (i.grid place).step := by
    rw [← @Nat.cast_lt ℚ, hstep, Nat.cast_zero]
    positivity
  -- the next multiple lies at most one step above the number
  have habove : (i.grid place).admits ((i.grid place).value / (i.grid place).step + 1) = true := by
    have hsplit := Nat.div_add_mod' (i.grid place).value (i.grid place).step
    have hrest := Nat.mod_lt (i.grid place).value hpos
    have hvalue : (i.grid place).value = i.value * scale := congrArg _ hg
    have hhigh' : (i.grid place).high = i.value * scale + 2 * scale := by
      rw [← Nat.add_mul, ← hhigh, ← hg]
      rfl
    have hlow' : (i.grid place).low ≤ i.value * scale := by
      rw [← hg]
      exact Nat.mul_le_mul_right _ hlow
    unfold Grid.admits
    rw [Nat.add_mul, Nat.one_mul]
    split <;> simp only [Bool.and_eq_true, decide_eq_true_iff] <;> omega
  simp only [Grid.nearest?, habove]
  cases (i.grid place).admits ((i.grid place).value / (i.grid place).step) <;> rfl

theorem RoundingInterval.search_isSome (hhigh : i.high = i.value + 2) (hlow : i.low ≤ i.value)
    {tries : Nat} (hplace : (10 : ℚ) ^ (place - tries) < 2 ^ (i.exponent + 1)) :
    (i.search (tries + 1) place).isSome := by
  induction tries generalizing place with
  | zero =>
      rw [Nat.cast_zero, sub_zero] at hplace
      have hfound := i.nearest?_isSome hhigh hlow hplace
      unfold RoundingInterval.search
      split
      next => rfl
      next hnone => exact nomatch hnone ▸ hfound
  | succ tries ih =>
      unfold RoundingInterval.search
      split
      next => rfl
      next =>
        apply ih
        rwa [sub_sub, add_comm, ← Nat.cast_succ]

end

section

variable {d : Dyadic}

/-- The last place that is tried is small enough. -/
theorem Dyadic.IsCanonical.topPlace_lt (hd : d.IsCanonical) :
    (10 : ℚ) ^ (d.topPlace - (19 : Nat)) < 2 ^ (d.exponent - 2 + 1) := by
  have hlog : d.significand.log2 < 53 := (Nat.log2_lt hd.pos.ne').2 hd.lt
  have hmin := hd.le_exponent
  have hmax := hd.exponent_le
  -- nineteen places below the top one, and sixteen would do for the bits of a significand
  unfold Dyadic.topPlace
  generalize ht : (d.significand.log2 : Int) + 1 + d.exponent = t
  have hten : (10 : ℚ) ^ (t * 30103 / 100000) ≤ 2 ^ (t + 1) :=
    ten_zpow_le_two_zpow (by omega) (by omega) (by omega)
  calc (10 : ℚ) ^ (t * 30103 / 100000 + 1 - (19 : Nat))
      = 10 ^ (t * 30103 / 100000) * 10 ^ (-18 : Int) := by
        rw [← zpow_add₀ (by norm_num)]
        congr 1
        push_cast
        ring
    _ ≤ 2 ^ (t + 1) * 10 ^ (-18 : Int) := mul_le_mul_of_nonneg_right hten (by positivity)
    _ < 2 ^ (t + 1) * 2 ^ (-55 : Int) := mul_lt_mul_of_pos_left (by norm_num) (by positivity)
    _ = 2 ^ (t + 1 + -55) := (zpow_add₀ two_ne_zero _ _).symm
    _ ≤ 2 ^ (d.exponent - 2 + 1) := zpow_le_zpow_right₀ one_le_two (by omega)

/-- The shortest decimal lies in the interval. -/
theorem Dyadic.IsCanonical.holds_shortest (hd : d.IsCanonical) :
    (RoundingInterval.ofDyadic d).Holds (d.shortest.digits * 10 ^ d.shortest.exponent) := by
  have hfound := (RoundingInterval.ofDyadic d).search_isSome rfl (Nat.sub_le _ _) hd.topPlace_lt
  obtain ⟨s, hs⟩ := Option.isSome_iff_exists.1 hfound
  have hshortest : d.shortest = s := by
    unfold Dyadic.shortest
    rw [hs]
    rfl
  rw [hshortest]
  exact RoundingInterval.holds_of_search hs

end

end FormulaGrading.Decimal
