import FormulaGrading.Proofs.Binary64.Finite

/-!
The order of floats. Floats are ordered like their ranks, which are the bits with the sign
of the float, and nothing compares to what is no number.
-/

namespace FormulaGrading.Decimal

open Float.Model (Format UnpackedFloat)
open Float.Model.UnpackedFloat

/-- The bits of infinity without its sign. -/
def infinityBits : Nat :=
  2047 * 2 ^ 52

/-- The place of a float among all floats. What is no number has none, and zero stands for
it. -/
def rank : UnpackedFloat → Int
  | .notANumber => 0
  | .infinity sign => sign.apply infinityBits
  | .zero _ => 0
  | .finite sign m e _ => sign.apply (Dyadic.bits ⟨m, e⟩)

theorem rank_infinity (sign : UnpackedFloat.Sign) :
    rank (.infinity sign) = sign.apply infinityBits := rfl

/-- Whether a float is in the form that bits are unpacked to. -/
def InForm : UnpackedFloat → Prop
  | .finite _ m e _ => Dyadic.IsCanonical ⟨m, e⟩
  | _ => True

theorem inForm_unpack (b : BitVec 64) : InForm (unpack Format.binary64 b) := by
  cases h : unpack Format.binary64 b with
  | finite sign m e hm => exact isCanonical_of_unpack h
  | _ => trivial

/-- The bits count the floats from zero up. -/
theorem Dyadic.IsCanonical.cast_bits {d : Dyadic} (hd : d.IsCanonical) :
    (d.bits : Int) = (d.exponent + 1074) * 2 ^ 52 + d.significand := by
  have hmin := hd.le_exponent
  have hnormal := hd.normal
  unfold Dyadic.bits leadingBit
  split <;> omega

theorem Dyadic.IsCanonical.bits_pos {d : Dyadic} (hd : d.IsCanonical) : 0 < d.bits := by
  have hbits := hd.cast_bits
  have hmin := hd.le_exponent
  have hpos := hd.pos
  omega

theorem Dyadic.IsCanonical.bits_lt_infinityBits {d : Dyadic} (hd : d.IsCanonical) :
    d.bits < infinityBits := by
  have hbits := hd.cast_bits
  have hmax := hd.exponent_le
  have hlt := hd.lt
  unfold infinityBits
  omega

/-- Magnitudes are compared by exponent first. -/
theorem isLE_compare_iff {d d' : Dyadic} (hd : d.IsCanonical) (hd' : d'.IsCanonical) :
    ((compare d.exponent d'.exponent).then (compare d.significand d'.significand)).isLE ↔
      d.bits ≤ d'.bits := by
  have hbits := hd.cast_bits
  have hbits' := hd'.cast_bits
  have hlt := hd.lt
  have hlt' := hd'.lt
  have hnormal := hd.normal
  have hnormal' := hd'.normal
  have hmin := hd.le_exponent
  have hmin' := hd'.le_exponent
  rw [Ordering.isLE_then_iff_or, Int.compare_eq_lt, Int.compare_eq_eq, Nat.isLE_compare]
  omega

section

variable {s t : UnpackedFloat.Sign} {m n : Nat} {e f : Int} {hm : 0 < m} {hn : 0 < n}

theorem le_finite_iff (hu : Dyadic.IsCanonical ⟨m, e⟩) (hv : Dyadic.IsCanonical ⟨n, f⟩) :
    (finite s m e hm).le (.finite t n f hn) ↔
      rank (.finite s m e hm) ≤ rank (.finite t n f hn) := by
  have hpos := hu.bits_pos
  have hpos' := hv.bits_pos
  cases s <;> cases t <;>
    simp only [UnpackedFloat.le, UnpackedFloat.compare, rank, Sign.apply, Option.any_some]
  case negative.negative =>
    rw [Ordering.swap_then, ← Int.compare_swap, ← Nat.compare_swap, Ordering.swap_swap,
      Ordering.swap_swap, isLE_compare_iff hv hu]
    omega
  case negative.positive => exact iff_of_true rfl (by omega)
  case positive.negative => exact iff_of_false Bool.false_ne_true (by omega)
  case positive.positive =>
    rw [isLE_compare_iff hu hv]
    omega

end

/-- The rank of a finite float lies between those of the infinities. -/
theorem abs_rank_lt {u : UnpackedFloat} (hu : InForm u) (hfinite : u.isFinite) :
    |rank u| < infinityBits := by
  cases u with
  | notANumber => exact nomatch hfinite
  | infinity s => exact nomatch hfinite
  | zero s => exact (by decide : |(0 : Int)| < infinityBits)
  | finite s m e hm =>
      have hlt := Dyadic.IsCanonical.bits_lt_infinityBits hu
      rw [abs_lt]
      cases s <;> simp only [rank, Sign.apply] <;> omega

/-- Floats other than what is no number are compared by rank. -/
theorem le_iff_rank_le {u v : UnpackedFloat} (hu : InForm u) (hv : InForm v) :
    u.le v ↔ u.isNaN = false ∧ v.isNaN = false ∧ rank u ≤ rank v := by
  rcases u with s | _ | s | ⟨s, m, e, hm⟩ <;> rcases v with t | _ | t | ⟨t, n, f, hn⟩
  case finite.finite => simpa [UnpackedFloat.isNaN] using le_finite_iff hu hv
  case zero.finite =>
    have hpos := Dyadic.IsCanonical.bits_pos hv
    cases t <;> simp [UnpackedFloat.le, UnpackedFloat.compare, UnpackedFloat.isNaN, rank,
      Sign.apply, hpos.ne']
  case finite.zero =>
    have hpos := Dyadic.IsCanonical.bits_pos hu
    cases s <;> simp [UnpackedFloat.le, UnpackedFloat.compare, UnpackedFloat.isNaN, rank,
      Sign.apply, hpos.ne']
  case infinity.finite =>
    have hlt := abs_lt.1 (abs_rank_lt hv rfl)
    cases s <;> simp [UnpackedFloat.le, UnpackedFloat.compare, UnpackedFloat.isNaN,
      Sign.apply, rank_infinity] <;> omega
  case finite.infinity =>
    have hlt := abs_lt.1 (abs_rank_lt hu rfl)
    cases t <;> simp [UnpackedFloat.le, UnpackedFloat.compare, UnpackedFloat.isNaN,
      Sign.apply, rank_infinity] <;> omega
  case infinity.infinity => cases s <;> cases t <;> decide
  case infinity.zero => cases s <;> cases t <;> decide
  case zero.infinity => cases s <;> cases t <;> decide
  all_goals simp [UnpackedFloat.le, UnpackedFloat.compare, UnpackedFloat.isNaN, rank]

/-- The place of a float among all floats. -/
def rankOf (x : Float) : Int :=
  rank x.toModel.unpack

theorem le_iff_rankOf_le {x y : Float} :
    x ≤ y ↔ x.isNaN = false ∧ y.isNaN = false ∧ rankOf x ≤ rankOf y := by
  have hle : x ≤ y ↔ x.toModel.unpack.le y.toModel.unpack := by
    show decide (x.toModel.unpack.le y.toModel.unpack = true) = true ↔ _
    rw [decide_eq_true_eq]
  exact hle.trans (le_iff_rank_le (inForm_unpack _) (inForm_unpack _))

theorem zero_le_iff {x : Float} : 0.0 ≤ x ↔ x.isNaN = false ∧ 0 ≤ rankOf x := by
  have hzero : (0.0 : Float).isNaN = false ∧ rankOf 0.0 = 0 := by decide +kernel
  rw [le_iff_rankOf_le, hzero.2, and_iff_right hzero.1]

theorem isNaN_eq_false_of_isUnsigned {u : UnpackedFloat} (h : IsUnsigned u) :
    u.isNaN = false ∧ 0 ≤ rank u := by
  cases u with
  | notANumber => exact h.elim
  | infinity sign =>
      obtain rfl : sign = .positive := h
      exact ⟨rfl, by decide⟩
  | zero => exact ⟨rfl, Int.le_refl _⟩
  | finite sign m e hm =>
      obtain rfl : sign = .positive := h
      exact ⟨rfl, Int.natCast_nonneg _⟩

/-- Floats whose bits are at most those of infinity are numbers from zero up. -/
theorem zero_le_of_toBits_le {x : Float} (h : x.toBits.toNat ≤ 2047 * 2 ^ 52) :
    x.isNaN = false ∧ 0.0 ≤ x := by
  obtain ⟨hnan, hrank⟩ := isNaN_eq_false_of_isUnsigned (isUnsigned_unpack h)
  exact ⟨hnan, zero_le_iff.2 ⟨hnan, hrank⟩⟩

theorem compare_swap (u v : UnpackedFloat) :
    v.compare u = (u.compare v).map Ordering.swap := by
  rcases u with s | _ | s | ⟨s, m, e, hm⟩ <;> rcases v with t | _ | t | ⟨t, n, f, hn⟩
  case infinity.infinity => cases s <;> cases t <;> rfl
  case finite.finite =>
    cases s <;> cases t <;>
      simp [UnpackedFloat.compare, Ordering.swap_then, Int.compare_swap, Nat.compare_swap]
  all_goals first | rfl | (cases s <;> rfl) | (cases t <;> rfl)

theorem lt_iff_compare {x y : Float} :
    x < y ↔ x.toModel.unpack.compare y.toModel.unpack = some .lt := by
  show decide ((x.toModel.unpack.compare y.toModel.unpack == some .lt) = true) = true ↔ _
  rw [decide_eq_true_eq, beq_iff_eq]

theorem le_iff_compare {x y : Float} :
    x ≤ y ↔ (x.toModel.unpack.compare y.toModel.unpack).any Ordering.isLE := by
  show decide (x.toModel.unpack.le y.toModel.unpack = true) = true ↔ _
  rw [decide_eq_true_eq, UnpackedFloat.le]

theorem lt_iff_le_not_le_float {x y : Float} : x < y ↔ x ≤ y ∧ ¬y ≤ x := by
  rw [lt_iff_compare, le_iff_compare, le_iff_compare, compare_swap x.toModel.unpack]
  cases x.toModel.unpack.compare y.toModel.unpack with
  | none => simp
  | some order => cases order <;> simp

theorem le_of_lt_float {x y : Float} (h : x < y) : x ≤ y :=
  (lt_iff_le_not_le_float.1 h).1

theorem le_trans_float {x y z : Float} (hxy : x ≤ y) (hyz : y ≤ z) : x ≤ z := by
  rw [le_iff_rankOf_le] at hxy hyz ⊢
  exact ⟨hxy.1, hyz.2.1, hxy.2.2.trans hyz.2.2⟩

theorem le_of_not_lt_float {x y : Float} (hx : x.isNaN = false) (hy : y.isNaN = false)
    (h : ¬y < x) : x ≤ y := by
  by_contra hnot
  refine h (lt_iff_le_not_le_float.2 ⟨le_iff_rankOf_le.2 ⟨hy, hx, ?_⟩, hnot⟩)
  by_contra hless
  exact hnot (le_iff_rankOf_le.2 ⟨hx, hy, (not_le.1 hless).le⟩)

theorem lt_of_lt_of_le_float {x y z : Float} (hxy : x < y) (hyz : y ≤ z) : x < z := by
  rw [lt_iff_le_not_le_float] at hxy ⊢
  exact ⟨le_trans_float hxy.1 hyz, fun hzx => hxy.2 (le_trans_float hyz hzx)⟩

end FormulaGrading.Decimal
