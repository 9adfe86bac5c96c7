import FormulaGrading.Proofs.Scanning.Places

/-!
Where tokens end. No token goes on with a blank or a symbol, so that the longest token at a
place stays the same when what comes behind it is replaced by something that begins so. In
front of a character that is in no token but by itself, the longest token is that of the
characters up to there.
-/

namespace FormulaGrading

theorem takeWhile_append_cons {p : Char → Bool} {c : Char} (hc : p c = false)
    (xs ys : List Char) : (xs ++ c :: ys).takeWhile p = xs.takeWhile p := by
  induction xs with
  | nil => simp [hc]
  | cons x xs ih => simp only [List.cons_append, List.takeWhile_cons, ih]

theorem dropWhile_append_cons {p : Char → Bool} {c : Char} (hc : p c = false)
    (xs ys : List Char) : (xs ++ c :: ys).dropWhile p = xs.dropWhile p ++ c :: ys := by
  induction xs with
  | nil => simp [hc]
  | cons x xs ih =>
      simp only [List.cons_append, List.dropWhile_cons, ih]
      split <;> rfl

namespace Token

theorem isAlpha_eq_false_of_isDigit {c : Char} (h : c.isDigit) : c.isAlpha = false := by
  refine Bool.eq_false_iff.2 fun halpha => ?_
  rw [Char.isDigit_iff_toNat] at h
  rw [isAlpha_iff_toNat] at halpha
  have hupper : 'A'.toNat = 65 := rfl
  have hlower : 'a'.toNat = 97 := rfl
  have hnine : '9'.toNat = 57 := rfl
  omega

/-- A name that was scanned is letters and digits. -/
theorem nameRun_eq (cs : List Char) :
    ∃ letters digits, nameRun cs = letters ++ digits ∧ (∀ c ∈ letters, c.isAlpha) ∧
      ∀ c ∈ digits, c.isDigit :=
  ⟨_, _, rfl, fun c => List.all_eq_true.1 List.all_takeWhile c, fun _ => digitRun_isDigit⟩

/-! ### The first character of a token -/

/-- A symbol goes on with no name and no number. -/
theorem not_of_symbolKind? {c : Char} {kind : TokenClass} (h : symbolKind? c = some kind) :
    c.isAlpha = false ∧ c.isDigit = false ∧ c ≠ '.' := by
  unfold symbolKind? at h
  split at h
  iterate 7
    obtain rfl := Option.some.inj h
    decide
  exact nomatch h

theorem symbolKind?_eq_none {c : Char} (h : c.isAlpha ∨ c.isDigit ∨ c = '.') :
    symbolKind? c = none := by
  cases hkind : symbolKind? c with
  | none => rfl
  | some kind =>
      obtain ⟨halpha, hdigit, hpoint⟩ := not_of_symbolKind? hkind
      simp [halpha, hdigit, hpoint] at h

theorem longest?_symbol {c : Char} {kind : TokenClass} (h : symbolKind? c = some kind)
    (rest : List Char) : longest? (c :: rest) = some (kind, [c]) := by
  rw [longest?, h]

theorem longest?_name {c : Char} (hc : c.isAlpha) (rest : List Char) :
    longest? (c :: rest) = some (.name, nameRun (c :: rest)) := by
  simp only [longest?, symbolKind?_eq_none (.inl hc), hc, if_true]

theorem longest?_number {c : Char} {rest : List Char} (hc : c.isDigit ∨ c = '.')
    (hsome : numberRun (c :: rest) ≠ []) :
    longest? (c :: rest) = some (.number, numberRun (c :: rest)) := by
  have halpha : c.isAlpha = false := by
    rcases hc with hdigit | rfl
    · exact isAlpha_eq_false_of_isDigit hdigit
    · rfl
  obtain ⟨d, ds, hrun⟩ := List.exists_cons_of_ne_nil hsome
  simp only [longest?, symbolKind?_eq_none (.inr hc), halpha, Bool.false_eq_true, if_false, hrun]

/-- Whether no name and no number goes on with what comes next. -/
def Breaks (rest : List Char) : Prop :=
  ∀ c ∈ rest.head?, c.isAlpha = false ∧ c.isDigit = false ∧ c ≠ '.'

theorem breaks_nil : Breaks [] := by simp [Breaks]

/-- Whether a character is in no name and in no number, and no sign of an exponent. -/
structure EndsToken (c : Char) : Prop where
  not_isAlpha : c.isAlpha = false
  not_isDigit : c.isDigit = false
  ne_point : c ≠ '.'
  ne_plus : c ≠ '+'
  ne_minus : c ≠ '-'

theorem endsToken_close : EndsToken ')' := by
  constructor <;> decide

theorem endsToken_of_isBlank {c : Char} (h : Text.isBlank c) : EndsToken c := by
  have hcode : ∀ d : Char, Text.isBlank d = false → c ≠ d := by
    rintro d hd rfl
    exact Bool.false_ne_true (hd.symm.trans h)
  refine ⟨Bool.eq_false_iff.2 fun halpha => ?_, Bool.eq_false_iff.2 fun hdigit => ?_,
    hcode _ rfl, hcode _ rfl, hcode _ rfl⟩
  all_goals simp only [Text.isBlank, Bool.or_eq_true, Bool.and_eq_true, decide_eq_true_eq] at h
  · rw [isAlpha_iff_toNat] at halpha
    have hupper : 'A'.toNat = 65 ∧ 'Z'.toNat = 90 := ⟨rfl, rfl⟩
    have hlower : 'a'.toNat = 97 ∧ 'z'.toNat = 122 := ⟨rfl, rfl⟩
    omega
  · rw [Char.isDigit_iff_toNat] at hdigit
    have hdigits : '0'.toNat = 48 ∧ '9'.toNat = 57 := ⟨rfl, rfl⟩
    omega

theorem EndsToken.breaks {c : Char} (h : EndsToken c) (rest : List Char) : Breaks (c :: rest) := by
  rintro d hd
  obtain rfl : c = d := by simpa using hd
  exact ⟨h.not_isAlpha, h.not_isDigit, h.ne_point⟩

theorem breaks_of_isSkipped {c : Char} (h : isSkipped c) (rest : List Char) :
    Breaks (c :: rest) :=
  (endsToken_of_isBlank (isBlank_of_isSkipped h)).breaks rest

/-! ### What runs take in -/

/-- An exponent takes in all the digits behind it. -/
theorem exponentRun_append_digits {c : Char} {sign digits : List Char} (hc : c = 'e' ∨ c = 'E')
    (hsign : sign = [] ∨ sign = ['+'] ∨ sign = ['-']) (hsome : digits ≠ [])
    (hdigits : ∀ d ∈ digits, d.isDigit) (rest : List Char) :
    exponentRun (c :: (sign ++ digits) ++ rest) = c :: (sign ++ digits) ++ digitRun rest := by
  have hwith : ∀ marker,
      withDigits marker (digits ++ rest) = marker ++ (digits ++ digitRun rest) := by
    intro marker
    simp [withDigits, digitRun, List.takeWhile_append_of_pos hdigits, hsome]
  have hmarker : (decide (c = 'e') || decide (c = 'E')) = true := by simpa using hc
  simp only [List.cons_append, List.append_assoc, exponentRun]
  rw [if_pos hmarker]
  rcases hsign with rfl | rfl | rfl
  · -- a digit is no sign
    obtain ⟨d, ds, rfl⟩ := List.exists_cons_of_ne_nil hsome
    have hd : d.isDigit := hdigits d List.mem_cons_self
    split
    next heq =>
      obtain rfl : d = '+' := (List.cons.inj heq).1
      exact absurd hd (by decide)
    next heq =>
      obtain rfl : d = '-' := (List.cons.inj heq).1
      exact absurd hd (by decide)
    next => exact hwith [c]
  · exact hwith [c, '+']
  · exact hwith [c, '-']

/-- A number is its digits, and then a fraction and an exponent as long as they get. -/
theorem numberRun_append_of_digitRun {whole behind : List Char}
    (hrun : digitRun (whole ++ behind) = whole)
    (hsome : whole ≠ [] ∨ 2 ≤ (fractionRun behind).length) :
    numberRun (whole ++ behind) =
      whole ++ (fractionRun behind ++ exponentRun (behind.drop (fractionRun behind).length)) := by
  have hnotNone : ¬ (whole.isEmpty && decide ((fractionRun behind).length < 2)) = true := by
    rw [Bool.and_eq_true, decide_eq_true_eq, List.isEmpty_iff]
    rintro ⟨hnil, hlt⟩
    exact hsome.elim (absurd hnil) (Nat.not_le_of_lt hlt)
  simp only [numberRun, hrun, List.drop_left]
  rw [if_neg hnotNone, List.length_append, ← List.drop_drop, List.drop_left, List.append_assoc]

/-- Whether no digits and no fraction go on with what comes next. -/
def EndsMantissa (behind : List Char) : Prop :=
  ∀ c ∈ behind.head?, c.isDigit = false ∧ c ≠ '.'

theorem endsMantissa_of_marker {c : Char} (hc : c = 'e' ∨ c = 'E') (behind : List Char) :
    EndsMantissa (c :: behind) := by
  rintro d hd
  obtain rfl := Option.some.inj hd
  rcases hc with rfl | rfl <;> decide

section

variable {whole fraction behind : List Char} (hends : EndsMantissa behind)
include hends

theorem fractionRun_append (hfraction : IsFraction fraction) :
    fractionRun (fraction ++ behind) = fraction := by
  cases hfraction with
  | none =>
      cases behind with
      | nil => rfl
      | cons c behind => simp [fractionRun, (hends c rfl).2]
  | some hdigits =>
      rw [List.cons_append, fractionRun, digitRun,
        takeWhile_append_of_head? hdigits fun c hc => (hends c hc).1]

/-- A number ends in an exponent as long as it gets. -/
theorem numberRun_append_of_endsMantissa (hwhole : ∀ c ∈ whole, c.isDigit)
    (hfraction : IsFraction fraction) (hsome : whole ≠ [] ∨ 2 ≤ fraction.length) :
    numberRun (whole ++ (fraction ++ behind)) =
      whole ++ (fraction ++ exponentRun behind) := by
  have hhead : ∀ c ∈ (fraction ++ behind).head?, c.isDigit = false := by
    intro c hc
    cases hfraction with
    | none => exact (hends c hc).1
    | some _ =>
        obtain rfl := Option.some.inj hc
        rfl
  have hrun := fractionRun_append hends hfraction
  rw [numberRun_append_of_digitRun (takeWhile_append_of_head? hwhole hhead)
    (by rwa [hrun]), hrun, List.drop_left]

end

/-! ### In front of a break -/

section

variable {rest : List Char} (hrest : Breaks rest)
include hrest

theorem Breaks.isDigit_eq_false : ∀ c ∈ rest.head?, c.isDigit = false :=
  fun c hc => (hrest c hc).2.1

theorem Breaks.exponentRun_eq : exponentRun rest = [] := by
  cases rest with
  | nil => rfl
  | cons c rest =>
      have halpha : c.isAlpha = false := (hrest c rfl).1
      have hmarker : ¬ (decide (c = 'e') || decide (c = 'E')) = true := by
        rw [Bool.or_eq_true, decide_eq_true_eq, decide_eq_true_eq]
        rintro (rfl | rfl) <;> exact absurd halpha (by decide)
      simp only [exponentRun]
      rw [if_neg hmarker]

theorem Breaks.endsMantissa {exponent : List Char} (h : IsExponent exponent) :
    EndsMantissa (exponent ++ rest) := by
  cases h with
  | none => exact fun c hc => (hrest c hc).2
  | some hc _ _ _ => exact endsMantissa_of_marker hc _

theorem Breaks.fractionRun_eq : fractionRun rest = [] :=
  fractionRun_append (hrest.endsMantissa .none) .none

theorem digitRun_append {digits : List Char} (hdigits : ∀ d ∈ digits, d.isDigit) :
    digitRun (digits ++ rest) = digits :=
  takeWhile_append_of_head? hdigits hrest.isDigit_eq_false

theorem nameRun_append {letters digits : List Char} (hletters : ∀ c ∈ letters, c.isAlpha)
    (hdigits : ∀ c ∈ digits, c.isDigit) :
    nameRun (letters ++ digits ++ rest) = letters ++ digits := by
  have hhead : ∀ c ∈ (digits ++ rest).head?, c.isAlpha = false := by
    intro c hc
    cases digits with
    | nil => exact (hrest c hc).1
    | cons d ds =>
        obtain rfl : d = c := by simpa using hc
        exact isAlpha_eq_false_of_isDigit (hdigits d List.mem_cons_self)
  rw [nameRun, List.append_assoc, takeWhile_append_of_head? hletters hhead,
    dropWhile_append_of_head? hletters hhead, digitRun_append hrest hdigits]

theorem Breaks.digitRun_eq : digitRun rest = [] := by
  have hnone : ∀ d ∈ ([] : List Char), d.isDigit := nofun
  exact digitRun_append hrest hnone

theorem exponentRun_append {exponent : List Char} (h : IsExponent exponent) :
    exponentRun (exponent ++ rest) = exponent := by
  cases h with
  | none => exact hrest.exponentRun_eq
  | some hc hsign hsome hdigits =>
      rw [exponentRun_append_digits hc hsign hsome hdigits, hrest.digitRun_eq, List.append_nil]

theorem numberRun_append {whole fraction exponent : List Char}
    (hwhole : ∀ c ∈ whole, c.isDigit) (hfraction : IsFraction fraction)
    (hexponent : IsExponent exponent) (hsome : whole ≠ [] ∨ 2 ≤ fraction.length) :
    numberRun (whole ++ (fraction ++ exponent) ++ rest) =
      whole ++ (fraction ++ exponent) := by
  rw [List.append_assoc, List.append_assoc,
    numberRun_append_of_endsMantissa (hrest.endsMantissa hexponent) hwhole hfraction hsome,
    exponentRun_append hrest hexponent]

/-- The longest token at a place does not depend on what comes behind it, unless it could
go on with that. -/
theorem longest?_append {kind : TokenClass} {lexeme cs : List Char}
    (h : longest? (lexeme ++ cs) = some (kind, lexeme)) :
    longest? (lexeme ++ rest) = some (kind, lexeme) := by
  obtain ⟨c, cs', rfl⟩ := List.exists_cons_of_ne_nil (longest?_isPrefix h).1
  rw [List.cons_append] at h ⊢
  -- the sort of a token is told by its first character
  simp only [longest?] at h ⊢
  cases hsymbol : symbolKind? c with
  | some kind' => simpa [hsymbol, eq_comm] using h
  | none =>
      simp only [hsymbol] at h ⊢
      cases halpha : c.isAlpha with
      | true =>
          simp only [halpha, if_true, Option.some.injEq, Prod.mk.injEq] at h ⊢
          obtain ⟨letters, digits, hparts, hletters, hdigits⟩ := nameRun_eq (c :: (cs' ++ cs))
          have hkept := nameRun_append hrest hletters hdigits
          rw [← hparts, h.2, List.cons_append] at hkept
          exact ⟨h.1, hkept⟩
      | false =>
          simp only [halpha, Bool.false_eq_true, if_false] at h ⊢
          have hrun : kind = .number ∧ numberRun (c :: (cs' ++ cs)) = c :: cs' := by
            cases hnumber : numberRun (c :: (cs' ++ cs)) with
            | nil => simp [hnumber] at h
            | cons => simpa [hnumber, eq_comm] using h
          obtain ⟨rfl, hrun⟩ := hrun
          obtain ⟨whole, fraction, exponent, hparts, hwhole, hfraction, hexponent, hsome⟩ :=
            numberRun_eq (hrun ▸ List.cons_ne_nil c cs')
          have hkept := numberRun_append hrest hwhole hfraction hexponent hsome
          rw [← hparts, hrun, List.cons_append] at hkept
          rw [hkept]

/-- A token is still the longest one in front of what it does not go on with. -/
theorem IsLongest.longest?_append {t : Token} (h : t.IsLongest) :
    longest? (t.lexeme.toList ++ rest) = some (t.kind, t.lexeme.toList) := by
  obtain ⟨cs, hcs⟩ := h
  obtain ⟨behind, rfl⟩ := (longest?_isPrefix hcs).2
  exact Token.longest?_append hrest hcs

end

/-! ### In front of the end of a token -/

section

variable {c : Char} (hc : EndsToken c) (xs rest : List Char)
include hc

theorem digitRun_append_end : digitRun (xs ++ c :: rest) = digitRun xs :=
  takeWhile_append_cons hc.not_isDigit xs rest

theorem nameRun_append_end : nameRun (xs ++ c :: rest) = nameRun xs := by
  rw [nameRun, takeWhile_append_cons hc.not_isAlpha, dropWhile_append_cons hc.not_isAlpha,
    digitRun_append_end hc, nameRun]

theorem fractionRun_append_end : fractionRun (xs ++ c :: rest) = fractionRun xs := by
  rcases xs with _ | ⟨x, xs⟩
  · exact (hc.breaks rest).fractionRun_eq
  · by_cases hx : x = '.'
    · subst hx
      simp only [List.cons_append, fractionRun, digitRun_append_end hc]
    · simp [fractionRun, hx]

theorem withDigits_append_end (marker : List Char) :
    withDigits marker (xs ++ c :: rest) = withDigits marker xs := by
  simp only [withDigits, digitRun_append_end hc]

theorem exponentRun_append_end : exponentRun (xs ++ c :: rest) = exponentRun xs := by
  rcases xs with _ | ⟨x, xs⟩
  · exact (hc.breaks rest).exponentRun_eq
  · simp only [List.cons_append, exponentRun]
    split
    · rcases xs with _ | ⟨d, xs⟩
      · simpa [hc.ne_plus, hc.ne_minus] using withDigits_append_end hc [] rest [x]
      · -- a sign may come first
        by_cases hplus : d = '+'
        · subst hplus
          exact withDigits_append_end hc xs rest [x, '+']
        · by_cases hminus : d = '-'
          · subst hminus
            exact withDigits_append_end hc xs rest [x, '-']
          · simpa [hplus, hminus] using withDigits_append_end hc (d :: xs) rest [x]
    · rfl

theorem numberRun_append_end : numberRun (xs ++ c :: rest) = numberRun xs := by
  have hwhole : (digitRun xs).length ≤ xs.length := (digitRun_isPrefix xs).length_le
  have hmantissa : (digitRun xs ++ fractionRun (xs.drop (digitRun xs).length)).length ≤
      xs.length :=
    (append_prefix_of_drop (digitRun_isPrefix xs) (fractionRun_isPrefix _)).length_le
  simp only [numberRun, digitRun_append_end hc, List.drop_append_of_le_length hwhole,
    fractionRun_append_end hc, List.drop_append_of_le_length hmantissa,
    exponentRun_append_end hc]

theorem longest?_append_end (hsome : xs ≠ []) :
    longest? (xs ++ c :: rest) = longest? xs := by
  obtain ⟨x, cs, rfl⟩ := List.exists_cons_of_ne_nil hsome
  have hname := nameRun_append_end hc (x :: cs) rest
  have hnumber := numberRun_append_end hc (x :: cs) rest
  rw [List.cons_append] at hname hnumber ⊢
  simp only [longest?, hname, hnumber]

end

end Token

end FormulaGrading
