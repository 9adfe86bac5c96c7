import FormulaGrading.Proofs.Binary64.Monotone

/-!
Sums and products with signs. An operation gives the exact result, rounded, and larger
numbers are rounded to larger floats. The order of the operands makes no difference, not even
to infinities.
-/

namespace FormulaGrading.Decimal

open Float.Model (Format UnpackedFloat totalExponent)
open Float.Model.UnpackedFloat

/-! ### The sign -/

theorem isNaN_neg (u : UnpackedFloat) : (neg u).isNaN = u.isNaN := by
  cases u <;> rfl

theorem rank_neg (u : UnpackedFloat) : rank (neg u) = -rank u := by
  cases u with
  | notANumber | zero => rfl
  | infinity s => cases s <;> rfl
  | finite s m e hm => cases s <;> simp [neg, rank, Sign.apply]

theorem HasRank.neg {u : UnpackedFloat} {r : Int} (h : HasRank u r) :
    HasRank (UnpackedFloat.neg u) (-r) :=
  ⟨(isNaN_neg u).trans h.isNumber, by rw [rank_neg, h.rank_eq]⟩

/-- The bit of the sign is the only one that a change of sign touches. -/
theorem unpack_of_signBit {b b' : BitVec 64} (h : b.toNat = 2 ^ 63 + b'.toNat)
    (hlt : b'.toNat < 2 ^ 63) :
    unpack Format.binary64 b = neg (unpack Format.binary64 b') := by
  have hmantissa : @unpackMantissa Format.binary64 b = @unpackMantissa Format.binary64 b' := by
    apply BitVec.eq_of_toNat_eq
    rw [toNat_unpackMantissa, toNat_unpackMantissa]
    omega
  have hexponent : @unpackExponent Format.binary64 b = @unpackExponent Format.binary64 b' := by
    apply BitVec.eq_of_toNat_eq
    rw [toNat_unpackExponent, toNat_unpackExponent]
    omega
  have hsign : @unpackSign Format.binary64 b = 1#1 := by
    apply BitVec.eq_of_toNat_eq
    show (b.toNat >>> 63) % 2 ^ 1 = 1
    rw [Nat.shiftRight_eq_div_pow]
    omega
  simp only [unpack, hmantissa, hexponent, hsign, unpackSign_eq b' hlt]
  split
  · split <;> rfl
  · split
    · split <;> rfl
    · rfl

theorem toNat_pack_neg {u : UnpackedFloat} (h : IsUnsigned u) :
    (pack Format.binary64 (neg u)).toNat = 2 ^ 63 + (pack Format.binary64 u).toNat := by
  have hinfinity : (packedInfinity Format.binary64 .negative).toNat =
      2 ^ 63 + (packedInfinity Format.binary64 .positive).toNat := by decide +kernel
  cases u with
  | notANumber => exact h.elim
  | infinity sign =>
      obtain rfl : sign = .positive := h
      exact hinfinity
  | zero sign =>
      obtain rfl : sign = .positive := h
      decide +kernel
  | finite sign m e hm =>
      obtain rfl : sign = .positive := h
      show (pack Format.binary64 (.finite .negative m e hm)).toNat = _
      simp only [pack]
      split
      · exact hinfinity
      · split <;> rw [toNat_packComponents, toNat_packComponents] <;>
          simp only [Sign.toBitVec, BitVec.toNat_ofNat] <;> omega

theorem repack_neg {u : UnpackedFloat} (h : IsUnsigned u) : repack (neg u) = neg (repack u) :=
  unpack_of_signBit (toNat_pack_neg h) ((toNat_pack_le h).trans_lt (by decide))

/-! ### Rounding of numbers with signs -/

/-- A magnitude with a sign. -/
def signed : UnpackedFloat.Sign → ℚ → ℚ
  | .positive, v => v
  | .negative, v => -v

/-- The number that a finite float stands for. -/
def realValue : UnpackedFloat → ℚ
  | .finite sign m e _ => signed sign (m * 2 ^ e)
  | _ => 0

/-- The rank of the float of so many units. What is too large is infinite. -/
def rankOfUnits (unit : Int) (n : Nat) : Int :=
  min infinityBits ((unit + 1074) * 2 ^ 52 + n)

/-- Whether the float of a certain rank is what a number is rounded to. -/
inductive RoundsToRank : ℚ → Int → Prop
  | above {v : ℚ} {unit : Int} {n : Nat} (hv : 0 ≤ v) (h : RoundsTo v unit n) :
      RoundsToRank v (rankOfUnits unit n)
  | below {v : ℚ} {unit : Int} {n : Nat} (hv : v ≤ 0) (h : RoundsTo (-v) unit n) :
      RoundsToRank v (-rankOfUnits unit n)

theorem RoundsTo.rank_nonneg {v : ℚ} {unit : Int} {n : Nat} (h : RoundsTo v unit n) :
    0 ≤ rankOfUnits unit n := by
  have hunit := h.le_unit
  exact le_min (Int.natCast_nonneg _) (by omega)

theorem roundsTo_zero : RoundsTo 0 (-1074) 0 := by
  refine ⟨?_, le_rfl, by positivity, fun h => absurd rfl h⟩
  rw [zero_div]
  exact nearestTo_of_lt (by norm_num) (by norm_num)

namespace RoundsToRank

variable {v v' : ℚ} {r r' : Int}

theorem neg (h : RoundsToRank v r) : RoundsToRank (-v) (-r) := by
  cases h with
  | above hv h => exact below (neg_nonpos.2 hv) ((neg_neg v).symm ▸ h)
  | below hv h => exact (neg_neg (rankOfUnits _ _)).symm ▸ above (neg_nonneg.2 hv) h

theorem eq_zero (h : RoundsToRank 0 r) : r = 0 := by
  have hzero : ∀ {unit : Int} {n : Nat}, RoundsTo 0 unit n →
      rankOfUnits unit n = 0 := by
    intro unit n h
    obtain ⟨rfl, rfl⟩ := h.unique roundsTo_zero
    rfl
  cases h with
  | above hv h => exact hzero h
  | below hv h => rw [hzero (neg_zero (G := ℚ) ▸ h), neg_zero]

/-- What is not negative is rounded up from zero. -/
theorem exists_roundsTo (h : RoundsToRank v r) (hv : 0 ≤ v) :
    ∃ unit n, RoundsTo v unit n ∧ r = rankOfUnits unit n := by
  cases h with
  | above _ h => exact ⟨_, _, h, rfl⟩
  | below hv' h =>
      obtain rfl := le_antisymm hv' hv
      exact ⟨_, _, roundsTo_zero, (below hv' h).eq_zero⟩

theorem nonneg (h : RoundsToRank v r) (hv : 0 ≤ v) : 0 ≤ r := by
  obtain ⟨unit, n, hrounds, rfl⟩ := h.exists_roundsTo hv
  exact hrounds.rank_nonneg

theorem mono_of_nonneg (h : RoundsToRank v r) (h' : RoundsToRank v' r') (hv : 0 ≤ v)
    (hvv' : v ≤ v') : r ≤ r' := by
  obtain ⟨unit, n, hrounds, rfl⟩ := h.exists_roundsTo hv
  obtain ⟨unit', n', hrounds', rfl⟩ := h'.exists_roundsTo (hv.trans hvv')
  exact min_le_min_left _ (hrounds.mono hrounds' hvv')

/-- Larger numbers are rounded to larger floats. -/
theorem mono (h : RoundsToRank v r) (h' : RoundsToRank v' r') (hvv' : v ≤ v') : r ≤ r' := by
  rcases le_total 0 v with hv | hv
  · exact h.mono_of_nonneg h' hv hvv'
  rcases le_total 0 v' with hv' | hv'
  · have hr := h.neg.nonneg (neg_nonneg.2 hv)
    have hr' := h'.nonneg hv'
    omega
  · have hmirror := h'.neg.mono_of_nonneg h.neg (neg_nonneg.2 hv') (neg_le_neg hvv')
    omega

end RoundsToRank

@[simp] theorem realValue_zero (sign : UnpackedFloat.Sign) : realValue (.zero sign) = 0 := rfl

/-- A float is rounded to itself. -/
theorem roundsToRank_realValue {u : UnpackedFloat} (hu : InForm u) (hfinite : u.isFinite) :
    RoundsToRank (realValue u) (rank u) := by
  have hpositive : ∀ {m : Nat} {e : Int} (hd : Dyadic.IsCanonical ⟨m, e⟩),
      RoundsToRank (m * 2 ^ e) (Dyadic.bits ⟨m, e⟩ : Nat) := by
    intro m e hd
    have hbits : ((Dyadic.bits ⟨m, e⟩ : Nat) : Int) = (e + 1074) * 2 ^ 52 + m := hd.cast_bits
    have hlt := hd.bits_lt_infinityBits
    rcases hd.roundsTo hd.holds_value with hrounds | ⟨htop, hrounds⟩
    · have hrank : ((Dyadic.bits ⟨m, e⟩ : Nat) : Int) = rankOfUnits e m := by
        unfold rankOfUnits
        omega
      rw [hrank]
      exact .above (by positivity) hrounds
    · have hrank : ((Dyadic.bits ⟨m, e⟩ : Nat) : Int) = rankOfUnits (e - 1) (2 ^ 53) := by
        have htop : m = 2 ^ 52 := htop
        unfold rankOfUnits
        omega
      rw [hrank]
      exact .above (by positivity) hrounds
  cases u with
  | notANumber | infinity => exact nomatch hfinite
  | zero => exact RoundsToRank.above le_rfl roundsTo_zero
  | finite s m e hm =>
      cases s with
      | positive => exact hpositive hu
      | negative =>
          exact (hpositive hu).neg

/-- Larger floats stand for larger numbers. -/
theorem realValue_le {u v : UnpackedFloat} (hu : InForm u) (hv : InForm v)
    (hu₁ : u.isFinite) (hv₁ : v.isFinite) (h : rank u ≤ rank v) : realValue u ≤ realValue v := by
  have hpos : ∀ {m : Nat} {e : Int}, (0 : ℚ) ≤ m * 2 ^ e := by
    intro m e
    positivity
  rcases u with s | _ | s | ⟨s, m, e, hm⟩ <;> rcases v with t | _ | t | ⟨t, n, f, hn⟩
  case zero.zero => exact le_rfl
  case zero.finite =>
    have hbits := Dyadic.IsCanonical.bits_pos hv
    cases t with
    | positive => simpa [realValue, signed] using hpos
    | negative =>
        simp only [rank, Sign.apply] at h
        omega
  case finite.zero =>
    have hbits := Dyadic.IsCanonical.bits_pos hu
    cases s with
    | positive =>
        simp only [rank, Sign.apply] at h
        omega
    | negative => simpa [realValue, signed] using hpos
  case finite.finite =>
    have hd : Dyadic.IsCanonical ⟨m, e⟩ := hu
    have hd' : Dyadic.IsCanonical ⟨n, f⟩ := hv
    have hbits := hd.bits_pos
    have hbits' := hd'.bits_pos
    cases s <;> cases t <;> simp only [realValue, signed, rank, Sign.apply] at h ⊢
    case positive.positive =>
      have hle : Dyadic.bits ⟨m, e⟩ ≤ Dyadic.bits ⟨n, f⟩ := Int.ofNat_le.1 h
      have hvalue := value_le_of_bits_le hd hd' hle
      exact hvalue
    case positive.negative => omega
    case negative.positive => exact (neg_nonpos.2 hpos).trans hpos
    case negative.negative =>
      have hle : Dyadic.bits ⟨n, f⟩ ≤ Dyadic.bits ⟨m, e⟩ := Int.ofNat_le.1 (neg_le_neg_iff.1 h)
      have hvalue := value_le_of_bits_le hd' hd hle
      exact neg_le_neg hvalue
  all_goals first | exact absurd hu₁ Bool.false_ne_true | exact absurd hv₁ Bool.false_ne_true

/-! ### Operations -/

/-- What is in form is not changed by packing. -/
theorem repack_eq {u : UnpackedFloat} (hu : InForm u) (hfinite : u.isFinite) : repack u = u := by
  cases u with
  | notANumber | infinity => exact nomatch hfinite
  | zero s => cases s <;> with_unfolding_all rfl
  | finite s m e hm =>
      have hpositive : repack (.finite .positive m e hm) = .finite .positive m e hm :=
        Dyadic.IsCanonical.unpack_bits hu (Dyadic.IsCanonical.toNat_pack hu)
      cases s with
      | positive => exact hpositive
      | negative =>
          have hnegative := repack_neg (u := .finite .positive m e hm) rfl
          rwa [hpositive] at hnegative

theorem isUnsigned_ofUnits (unit : Int) (n : Nat) : IsUnsigned (ofUnits .positive unit n) := by
  unfold ofUnits
  split_ifs <;> rfl

theorem neg_ofUnits (unit : Int) (n : Nat) :
    neg (ofUnits .positive unit n) = ofUnits .negative unit n := by
  unfold ofUnits
  split_ifs <;> rfl

/-- Whether a float is a number, and what another number is rounded to. -/
def IsRounded (v : ℚ) (u : UnpackedFloat) : Prop :=
  ∃ r, RoundsToRank v r ∧ HasRank u r

theorem IsRounded.neg {v : ℚ} {u : UnpackedFloat} (h : IsRounded v u) :
    IsRounded (-v) (UnpackedFloat.neg u) := by
  obtain ⟨r, hrounds, hrank⟩ := h
  exact ⟨-r, hrounds.neg, hrank.neg⟩

theorem isRounded_realValue {u : UnpackedFloat} (hu : InForm u) (hfinite : u.isFinite) :
    IsRounded (realValue u) u := by
  refine ⟨rank u, roundsToRank_realValue hu hfinite, ?_, rfl⟩
  cases u <;> first | rfl | exact nomatch hfinite

theorem isRounded_repack_zero (sign : UnpackedFloat.Sign) : IsRounded 0 (repack (.zero sign)) :=
  ⟨0, .above le_rfl roundsTo_zero, hasRank_repack_zero _⟩

theorem isRounded_repack_ofUnits {v : ℚ} {unit : Int} {n : Nat} (h : RoundsTo v unit n)
    (hv : 0 ≤ v) (sign : UnpackedFloat.Sign) :
    IsRounded (signed sign v) (repack (ofUnits sign unit n)) := by
  have hpositive : IsRounded v (repack (ofUnits .positive unit n)) :=
    ⟨_, .above hv h, hasRank_repack_ofUnits h⟩
  cases sign with
  | positive => exact hpositive
  | negative =>
      rw [← neg_ofUnits, repack_neg (isUnsigned_ofUnits unit n)]
      exact hpositive.neg

theorem decreaseExponent_eq {m : Nat} {e target : Int} :
    decreaseExponent m e target = (m * 2 ^ (e - target).toNat, e - (e - target).toNat) := by
  rw [decreaseExponent, Nat.shiftLeft_eq]

/-- Shifting a significand in front of a smaller exponent leaves the number as it is. -/
theorem decreased_mul_zpow (m : Nat) (e target : Int) :
    ((m * 2 ^ (e - target).toNat : Nat) : ℚ) * 2 ^ (e - (e - target).toNat) = m * 2 ^ e := by
  rw [zpow_sub₀ two_ne_zero, zpow_natCast]
  push_cast
  field_simp

theorem log2_mul_two_pow {m : Nat} (hm : 0 < m) (k : Nat) :
    (m * 2 ^ k).log2 = m.log2 + k := by
  rw [Nat.log2_eq_iff (Nat.mul_pos hm (Nat.two_pow_pos k)).ne', pow_add, add_right_comm, pow_add]
  exact ⟨Nat.mul_le_mul_right _ (Nat.log2_self_le hm.ne'),
    Nat.mul_lt_mul_of_pos_right Nat.lt_log2_self (Nat.two_pow_pos k)⟩

/-- A significand is shifted first to where it has as many bits as are kept. -/
theorem exists_roundsTo_round (sign : UnpackedFloat.Sign) {m : Nat} (hm : 0 < m) (e : Int) :
    ∃ unit n, RoundsTo (m * 2 ^ e) unit n ∧
      UnpackedFloat.round Format.binary64 sign m e = ofUnits sign unit n := by
  simp only [UnpackedFloat.round, decreaseExponent_eq]
  generalize htarget : Format.binary64.targetExponent (totalExponent m e) = target
  have hexact : Describes (m * 2 ^ (e - target).toNat) .exact
      ((m * 2 ^ (e - target).toNat : Nat) : ℚ) := rfl
  have htotal : totalExponent (m * 2 ^ (e - target).toNat) (e - (e - target).toNat) =
      totalExponent m e := by
    rw [totalExponent, totalExponent, log2_mul_two_pow hm]
    push_cast
    ring
  obtain ⟨unit, n, hrounds, heq⟩ := exists_roundsTo sign hexact
    (show e - (e - target).toNat ≤ _ by rw [htotal, htarget]; omega)
  exact ⟨unit, n, decreased_mul_zpow m e target ▸ hrounds, heq⟩

theorem isRounded_normalize (m e : Int) :
    IsRounded (m * 2 ^ e) (repack (UnpackedFloat.normalize Format.binary64 m e .positive)) := by
  rw [UnpackedFloat.normalize]
  rcases lt_trichotomy m 0 with hm | rfl | hm
  · rw [Int.compare_eq_lt.2 hm]
    obtain ⟨unit, n, hrounds, heq⟩ :=
      exists_roundsTo_round .negative (show 0 < (-m).toNat by omega) e
    have hvalue : (((-m).toNat : Nat) : ℚ) = -m := by
      exact_mod_cast (Int.toNat_of_nonneg (by omega) : ((-m).toNat : Int) = -m)
    have hrounded := isRounded_repack_ofUnits hrounds (by positivity) .negative
    rw [hvalue, signed, neg_mul, neg_neg] at hrounded
    simpa only [heq] using hrounded
  · rw [Int.compare_eq_eq.2 rfl]
    simp only [Int.cast_zero, zero_mul]
    exact isRounded_repack_zero _
  · rw [Int.compare_eq_gt.2 hm]
    obtain ⟨unit, n, hrounds, heq⟩ :=
      exists_roundsTo_round .positive (show 0 < m.toNat by omega) e
    have hvalue : ((m.toNat : Nat) : ℚ) = m := by
      exact_mod_cast (Int.toNat_of_nonneg hm.le : (m.toNat : Int) = m)
    have hrounded := isRounded_repack_ofUnits hrounds (by positivity) .positive
    rw [hvalue, signed] at hrounded
    simpa only [heq] using hrounded

theorem signed_mul (s t : UnpackedFloat.Sign) (v w : ℚ) :
    signed (s * t) (v * w) = signed s v * signed t w := by
  cases s <;> cases t
  case positive.positive => rfl
  case positive.negative => exact (mul_neg v w).symm
  case negative.positive => exact (neg_mul v w).symm
  case negative.negative => exact (neg_mul_neg v w).symm

theorem cast_apply (sign : UnpackedFloat.Sign) (n : Nat) :
    ((sign.apply n : Int) : ℚ) = signed sign n := by
  cases sign <;> simp [Sign.apply, signed]

theorem signed_mul_zpow (sign : UnpackedFloat.Sign) (v : ℚ) (e : Int) :
    signed sign v * 2 ^ e = signed sign (v * 2 ^ e) := by
  cases sign with
  | positive => rfl
  | negative => exact neg_mul v _

/-- A significand with a sign, shifted in front of a smaller exponent. -/
theorem apply_mul_zpow (sign : UnpackedFloat.Sign) (m : Nat) {e target : Int} (h : target ≤ e) :
    ((sign.apply (m * 2 ^ (e - target).toNat : Nat) : Int) : ℚ) * 2 ^ target =
      signed sign (m * 2 ^ e) := by
  have hexponent : e - (e - target).toNat = target := by omega
  have hshift := decreased_mul_zpow m e target
  rw [hexponent] at hshift
  rw [cast_apply, signed_mul_zpow, hshift]

/-- A sum is the exact sum, rounded. -/
theorem isRounded_add {u v : UnpackedFloat} (hu : InForm u) (hv : InForm v) (hu₁ : u.isFinite)
    (hv₁ : v.isFinite) : IsRounded (realValue u + realValue v)
      (repack (UnpackedFloat.add Format.binary64 u v)) := by
  rcases u with s | _ | s | ⟨s, m, e, hm⟩ <;> rcases v with t | _ | t | ⟨t, n, f, hn⟩
  case zero.zero =>
    rw [realValue_zero, realValue_zero, add_zero]
    cases s <;> cases t <;> exact isRounded_repack_zero _
  case zero.finite =>
    rw [realValue_zero, zero_add]
    show IsRounded _ (repack (.finite t n f hn))
    rw [repack_eq hv hv₁]
    exact isRounded_realValue hv hv₁
  case finite.zero =>
    rw [realValue_zero, add_zero]
    show IsRounded _ (repack (.finite s m e hm))
    rw [repack_eq hu hu₁]
    exact isRounded_realValue hu hu₁
  case finite.finite =>
    simp only [UnpackedFloat.add, decreaseExponent_eq]
    have hrounded := isRounded_normalize (s.apply (m * 2 ^ (e - min e f).toNat : Nat) +
      t.apply (n * 2 ^ (f - min e f).toNat : Nat)) (min e f)
    rw [Int.cast_add, add_mul, apply_mul_zpow s m (min_le_left e f),
      apply_mul_zpow t n (min_le_right e f)] at hrounded
    exact hrounded
  all_goals first | exact absurd hu₁ Bool.false_ne_true | exact absurd hv₁ Bool.false_ne_true

/-- A product is the exact product, rounded. -/
theorem isRounded_mul {u v : UnpackedFloat} (hu : InForm u) (hv : InForm v) (hu₁ : u.isFinite)
    (hv₁ : v.isFinite) : IsRounded (realValue u * realValue v)
      (repack (UnpackedFloat.mul Format.binary64 u v)) := by
  rcases u with s | _ | s | ⟨s, m, e, hm⟩ <;> rcases v with t | _ | t | ⟨t, n, f, hn⟩
  case zero.zero | zero.finite =>
    rw [realValue_zero, zero_mul]
    exact isRounded_repack_zero _
  case finite.zero =>
    rw [realValue_zero, mul_zero]
    exact isRounded_repack_zero _
  case finite.finite =>
    obtain ⟨unit, k, hrounds, heq⟩ := exists_roundsTo (s * t)
      (show Describes (m * n) .exact ((m * n : Nat) : ℚ) from rfl) (le_targetExponent_mul hu hv)
    rw [cast_mul_zpow_add] at hrounds
    show IsRounded _ (repack (roundWithAccuracy Format.binary64 (s * t) (m * n) (e + f) .exact))
    rw [heq, realValue, realValue, ← signed_mul]
    exact isRounded_repack_ofUnits hrounds (by positivity) _
  all_goals first | exact absurd hu₁ Bool.false_ne_true | exact absurd hv₁ Bool.false_ne_true

theorem add_comm_unpacked (u v : UnpackedFloat) :
    UnpackedFloat.add Format.binary64 u v = UnpackedFloat.add Format.binary64 v u := by
  rcases u with s | _ | s | ⟨s, m, e, hm⟩ <;> rcases v with t | _ | t | ⟨t, n, f, hn⟩
  case finite.finite => simp only [UnpackedFloat.add, min_comm e f, Int.add_comm]
  all_goals first | rfl | (cases s <;> cases t <;> rfl)

theorem mul_comm_unpacked (u v : UnpackedFloat) :
    UnpackedFloat.mul Format.binary64 u v = UnpackedFloat.mul Format.binary64 v u := by
  have hsign (s t : UnpackedFloat.Sign) : s * t = t * s := by cases s <;> cases t <;> rfl
  rcases u with s | _ | s | ⟨s, m, e, hm⟩ <;> rcases v with t | _ | t | ⟨t, n, f, hn⟩
  case finite.finite =>
    simp only [UnpackedFloat.mul, hsign s t, Nat.mul_comm m n, Int.add_comm e f]
  all_goals first | rfl | simp only [UnpackedFloat.mul, hsign s t]

/-- A larger float less a smaller one has no sign. -/
theorem isUnsigned_sub {u v : UnpackedFloat} (hu : InForm u) (hv : InForm v) (hu₁ : u.isFinite)
    (hv₁ : v.isFinite) (h : rank v < rank u) :
    IsUnsigned (UnpackedFloat.sub Format.binary64 u v) := by
  have hvalue : realValue v < realValue u := by
    by_contra hle
    exact h.not_ge ((roundsToRank_realValue hu hu₁).mono (roundsToRank_realValue hv hv₁)
      (not_lt.1 hle))
  rcases u with s | _ | s | ⟨s, m, e, hm⟩ <;> rcases v with t | _ | t | ⟨t, n, f, hn⟩
  case zero.zero => exact absurd h (lt_irrefl _)
  case zero.finite =>
    have hbits := Dyadic.IsCanonical.bits_pos hv
    cases t with
    | positive =>
        simp only [rank, Sign.apply] at h
        omega
    | negative => rfl
  case finite.zero =>
    cases s with
    | positive => rfl
    | negative =>
        simp only [rank, Sign.apply] at h
        omega
  case finite.finite =>
    simp only [UnpackedFloat.sub, decreaseExponent_eq]
    have hdifference : (0 : ℚ) < ((s.apply (m * 2 ^ (e - min e f).toNat : Nat) -
        t.apply (n * 2 ^ (f - min e f).toNat : Nat) : Int) : ℚ) * 2 ^ min e f := by
      rw [Int.cast_sub, sub_mul, apply_mul_zpow s m (min_le_left e f),
        apply_mul_zpow t n (min_le_right e f)]
      exact sub_pos.2 hvalue
    have hpos := (mul_pos_iff_of_pos_right (by positivity)).1 hdifference
    rw [UnpackedFloat.normalize, Int.compare_eq_gt.2 (Int.cast_pos.1 hpos)]
    exact isUnsigned_roundWithAccuracy _ _ _
  all_goals first | exact absurd hu₁ Bool.false_ne_true | exact absurd hv₁ Bool.false_ne_true

end FormulaGrading.Decimal
