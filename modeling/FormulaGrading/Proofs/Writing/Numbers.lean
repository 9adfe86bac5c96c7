import FormulaGrading.Proofs.Binary64.Shortest
import FormulaGrading.Proofs.Writing.Words

/-!
The text of a finite float without a sign is read as the float. The text is the shortest
decimal in positional notation, and reading it gives a decimal of the same value.
-/

namespace FormulaGrading.Decimal

theorem isDigit_of_mem_zeros {n : Nat} {c : Char} (h : c ∈ List.replicate n '0') :
    c.isDigit := by
  rw [List.eq_of_mem_replicate h]
  decide

/-- Leading zeros count for nothing. -/
theorem natOfDigits_zeros_append (k n : Nat) :
    natOfDigits (List.replicate k '0' ++ Nat.toDigits 10 n) = n := by
  rw [natOfDigits, ← Nat.ofDigitChars_eq_foldl, Nat.ofDigitChars_append,
    Nat.ofDigitChars_replicate_zero, Nat.mul_zero, Nat.ofDigitChars_ten_toDigits]

/-- Trailing zeros multiply by ten. -/
theorem natOfDigits_append_zeros (k n : Nat) :
    natOfDigits (Nat.toDigits 10 n ++ List.replicate k '0') = 10 ^ k * n := by
  rw [natOfDigits, ← Nat.ofDigitChars_eq_foldl, Nat.ofDigitChars_append,
    Nat.ofDigitChars_replicate_zero, Nat.ofDigitChars_ten_toDigits]

/-- A number without an exponent is read as its digits with a place. -/
theorem readUnsigned?_plain {whole fraction : List Char} (hsome : whole ≠ [])
    (hwhole : ∀ c ∈ whole, c.isDigit) (hfraction : Token.IsFraction fraction) :
    readUnsigned? (whole ++ fraction) =
      some (rounded (natOfDigits (whole ++ fraction.drop 1))
        (0 - ((fraction.drop 1).length : Int))) := by
  have hhead : ∀ c ∈ fraction.head?, c.isDigit = false := by
    cases hfraction with
    | none => simp
    | some _ =>
        intro c hc
        obtain rfl : '.' = c := by simpa using hc
        decide
  have hsplit := Token.splitFraction_append hfraction .none
  rw [List.append_nil] at hsplit
  rw [readUnsigned?, takeWhile_append_of_head? hwhole hhead,
    dropWhile_append_of_head? hwhole hhead]
  simp only [hsplit, List.isEmpty_eq_false_iff.2 hsome, Bool.false_and, Bool.false_eq_true,
    if_false, exponent?, Option.map_some]

/-- The parts of the positional notation of a decimal, which have the value of the
decimal. -/
theorem Scaled.positional_parts (s : Scaled) :
    ∃ whole fraction, s.positional.toList = whole ++ fraction ∧ whole ≠ [] ∧
      (∀ c ∈ whole, c.isDigit) ∧ Token.IsFraction fraction ∧
      (natOfDigits (whole ++ fraction.drop 1) : ℚ) * 10 ^ (0 - ((fraction.drop 1).length : Int)) =
        s.digits * 10 ^ s.exponent := by
  have hdigits : ∀ c ∈ Nat.toDigits 10 s.digits, c.isDigit := fun c hc =>
    Nat.isDigit_of_mem_toDigits (by decide) (by decide) hc
  have hvalue : natOfDigits (Nat.toDigits 10 s.digits) = s.digits :=
    natOfDigits_zeros_append 0 s.digits
  simp only [Scaled.positional]
  split
  next hwhole =>
    rw [String.toList_ofList]
    refine ⟨_, [], (List.append_nil _).symm, by simp, ?_, .none, ?_⟩
    · intro c hc
      rcases List.mem_append.1 hc with hc | hc
      · exact hdigits c hc
      · exact isDigit_of_mem_zeros hc
    · obtain ⟨k, hk⟩ := Int.eq_ofNat_of_zero_le (show 0 ≤ s.exponent by omega)
      rw [List.drop_nil, List.append_nil, natOfDigits_append_zeros, hk]
      simp [mul_comm]
  next hplaces =>
    obtain ⟨k, hk⟩ := Int.eq_ofNat_of_zero_le (show 0 ≤ -s.exponent by omega)
    have hexponent : s.exponent = 0 - k := by omega
    have htoNat : (-s.exponent).toNat = k := by omega
    rw [htoNat, hexponent]
    split
    next hshort =>
      rw [String.toList_ofList]
      refine ⟨['0'], _, rfl, by simp, by simp, .some fun c hc => ?_, ?_⟩
      · rcases List.mem_append.1 hc with hc | hc
        · exact isDigit_of_mem_zeros hc
        · exact hdigits c hc
      · -- the zero in front of the point is one more leading zero
        have hpadded := natOfDigits_zeros_append (k - (Nat.toDigits 10 s.digits).length + 1)
          s.digits
        rw [List.replicate_succ, List.cons_append] at hpadded
        have hlength : (k - (Nat.toDigits 10 s.digits).length) +
            (Nat.toDigits 10 s.digits).length = k := Nat.sub_add_cancel hshort
        simp only [List.drop_one, List.tail_cons, List.singleton_append, hpadded,
          List.length_append, List.length_replicate, hlength]
    next hlong =>
      rw [String.toList_ofList]
      refine ⟨_, _, rfl, ?_, fun c hc => hdigits c (List.mem_of_mem_take hc),
        .some fun c hc => hdigits c (List.mem_of_mem_drop hc), ?_⟩
      · intro htake
        have hlength := congrArg List.length htake
        simp only [List.length_take, List.length_nil] at hlength
        omega
      · have hlength : (Nat.toDigits 10 s.digits).length -
            ((Nat.toDigits 10 s.digits).length - k) = k := by omega
        simp only [List.drop_one, List.tail_cons, List.take_append_drop, hvalue,
          List.length_drop, hlength]

/-- The text of a finite float without a sign is digits, perhaps with a point among them,
and is read as the float. -/
theorem text_read {x : Float} (hfinite : x.isFinite) (hsign : isNegative x = false) :
    IsPlainNumber (text x).toList ∧ readUnsigned? (text x).toList = some x := by
  have hclass : ¬x.isNaN ∧ ¬x.isInf := by
    have hunpack : x.toModel.unpack.isFinite := hfinite
    show ¬x.toModel.unpack.isNaN ∧ ¬x.toModel.unpack.isInf
    generalize x.toModel.unpack = u at hunpack ⊢
    cases u with
    | infinity _ | notANumber => exact absurd hunpack Bool.false_ne_true
    | zero _ | finite _ _ _ _ => exact ⟨Bool.false_ne_true, Bool.false_ne_true⟩
  rw [text, hsign, Bool.false_and, if_neg Bool.false_ne_true, magnitudeText, if_neg hclass.1,
    if_neg hclass.2]
  by_cases hzero : x.toBits.toNat = 0
  · have hx : x = 0.0 := eq_of_toBits_eq (UInt64.toNat_inj.1 (hzero.trans (by decide +kernel)))
    subst hx
    exact ⟨⟨['0'], [], by decide +kernel, by simp, by simp, .none⟩, by decide +kernel⟩
  · obtain ⟨hd, hbits⟩ := isCanonical_ofFloat hfinite hsign hzero
    obtain ⟨whole, fraction, hparts, hsome, hwhole, hfraction, hvalue⟩ :=
      (Dyadic.ofFloat x).shortest.positional_parts
    simp only [hd.pos.ne', if_false]
    refine ⟨⟨whole, fraction, hparts, hsome, hwhole, hfraction⟩, ?_⟩
    rw [hparts, readUnsigned?_plain hsome hwhole hfraction,
      rounded_eq hd hbits (hvalue ▸ hd.holds_shortest)]

/-- What is read as a number is a decimal, rounded. -/
theorem exists_rounded_of_readUnsigned? {cs : List Char} {x : Float}
    (h : readUnsigned? cs = some x) : ∃ n place, x = rounded n place := by
  unfold readUnsigned? at h
  simp only at h
  split at h
  next => exact nomatch h
  next =>
    obtain ⟨e, -, rfl⟩ := Option.map_eq_some_iff.1 h
    exact ⟨_, _, rfl⟩

/-- Numbers are read without a sign. -/
theorem isNegative_of_readUnsigned? {cs : List Char} {x : Float}
    (h : readUnsigned? cs = some x) : isNegative x = false := by
  obtain ⟨n, place, rfl⟩ := exists_rounded_of_readUnsigned? h
  have hle := toBits_rounded_le n place
  rw [isNegative, decide_eq_false_iff_not]
  omega

end FormulaGrading.Decimal
