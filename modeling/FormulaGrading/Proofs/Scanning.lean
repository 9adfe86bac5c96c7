import FormulaGrading.Decimal.Numeral
import FormulaGrading.Token.Scan

/-!
What scanning promises of its tokens. Each of them is the longest token at its place, so
that its kind tells what its text is made of: a number can be read, and a name is letters
with digits after them.
-/

namespace FormulaGrading

theorem takeWhile_append_of_head? {p : Char → Bool} {xs ys : List Char}
    (hxs : ∀ c ∈ xs, p c) (hys : ∀ c ∈ ys.head?, p c = false) :
    (xs ++ ys).takeWhile p = xs := by
  rw [List.takeWhile_append_of_pos hxs]
  cases ys with
  | nil => simp
  | cons y ys =>
      have hy : p y = false := hys y rfl
      simp [hy]

theorem dropWhile_append_of_head? {p : Char → Bool} {xs ys : List Char}
    (hxs : ∀ c ∈ xs, p c) (hys : ∀ c ∈ ys.head?, p c = false) :
    (xs ++ ys).dropWhile p = ys := by
  rw [List.dropWhile_append_of_pos hxs]
  cases ys with
  | nil => simp
  | cons y ys =>
      have hy : p y = false := hys y rfl
      simp [hy]

namespace Token

/-- The texts of exponents: none, or a marker with an optional sign and some digits. -/
inductive IsExponent : List Char → Prop where
  | none : IsExponent []
  | some {c : Char} {sign digits : List Char} (hc : c = 'e' ∨ c = 'E')
      (hsign : sign = [] ∨ sign = ['+'] ∨ sign = ['-']) (hsome : digits ≠ [])
      (hdigits : ∀ d ∈ digits, d.isDigit) : IsExponent (c :: (sign ++ digits))

/-- The texts of fractions: none, or a point with digits behind it. -/
inductive IsFraction : List Char → Prop where
  | none : IsFraction []
  | some {digits : List Char} (hdigits : ∀ d ∈ digits, d.isDigit) :
      IsFraction ('.' :: digits)

theorem digitRun_isDigit {cs : List Char} {c : Char} (h : c ∈ digitRun cs) : c.isDigit :=
  List.all_eq_true.1 List.all_takeWhile c h

theorem isFraction_fractionRun (cs : List Char) : IsFraction (fractionRun cs) := by
  unfold fractionRun
  split
  · exact .some fun _ => digitRun_isDigit
  · exact .none

theorem isExponent_exponentRun (cs : List Char) : IsExponent (exponentRun cs) := by
  have hdigits : ∀ {c : Char} {sign rest : List Char}, c = 'e' ∨ c = 'E' →
      sign = [] ∨ sign = ['+'] ∨ sign = ['-'] →
      IsExponent (withDigits (c :: sign) rest) := by
    intro c sign rest hc hsign
    simp only [withDigits]
    split
    next => exact .none
    next hsome =>
      exact .some hc hsign (by simpa using hsome) fun _ => digitRun_isDigit
  cases cs with
  | nil => exact .none
  | cons c rest =>
      simp only [exponentRun]
      split
      next hc =>
        have hmarker : c = 'e' ∨ c = 'E' := by simpa using hc
        split
        · exact hdigits hmarker (.inr (.inl rfl))
        · exact hdigits hmarker (.inr (.inr rfl))
        · exact hdigits hmarker (.inl rfl)
      next => exact .none

/-- A number that was scanned is digits, a fraction and an exponent, with a digit in the
first or second part. -/
theorem numberRun_eq {cs : List Char} (h : numberRun cs ≠ []) :
    ∃ whole fraction exponent, numberRun cs = whole ++ (fraction ++ exponent) ∧
      (∀ d ∈ whole, d.isDigit) ∧ IsFraction fraction ∧ IsExponent exponent ∧
      (whole ≠ [] ∨ 2 ≤ fraction.length) := by
  unfold numberRun at h ⊢
  simp only at h ⊢
  split
  next hnone =>
    rw [if_pos hnone] at h
    exact absurd rfl h
  next hsome =>
    refine ⟨_, _, _, List.append_assoc .., fun _ => digitRun_isDigit,
      isFraction_fractionRun _, isExponent_exponentRun _, ?_⟩
    by_cases hwhole : digitRun cs = []
    · refine .inr (Nat.le_of_not_lt fun hlt => hsome ?_)
      rw [Bool.and_eq_true, decide_eq_true_eq]
      exact ⟨List.isEmpty_iff.2 hwhole, hlt⟩
    · exact .inl hwhole

theorem IsExponent.head? {cs : List Char} (h : IsExponent cs) :
    ∀ c ∈ cs.head?, c = 'e' ∨ c = 'E' := by
  cases h with
  | none => simp
  | some hc _ _ _ => simpa using hc

theorem IsExponent.isSome {cs : List Char} (h : IsExponent cs) :
    (Decimal.exponent? cs).isSome := by
  cases h with
  | none => rfl
  | @some c sign digits hc hsign hsome hdigits =>
      have hread : Decimal.exponentDigits? digits = .some (Decimal.natOfDigits digits) := by
        have hall : digits.all Char.isDigit := List.all_eq_true.2 hdigits
        simp [Decimal.exponentDigits?, hall, hsome]
      have hmarker : (decide (c = 'e') || decide (c = 'E')) = true := by simpa using hc
      simp only [Decimal.exponent?, hmarker, if_true]
      rcases hsign with rfl | rfl | rfl
      · obtain ⟨d, ds, rfl⟩ := List.exists_cons_of_ne_nil hsome
        have hd : d.isDigit := hdigits d List.mem_cons_self
        simp only [List.nil_append]
        split
        next heq =>
          obtain rfl : d = '-' := (List.cons.inj heq).1
          exact absurd hd (by decide)
        next heq =>
          obtain rfl : d = '+' := (List.cons.inj heq).1
          exact absurd hd (by decide)
        next => simp [hread]
      · simp [hread]
      · simp [hread]

/-- Splitting a number up again finds the parts that it was scanned from. -/
theorem splitFraction_append {fraction exponent : List Char} (hfraction : IsFraction fraction)
    (hexponent : IsExponent exponent) :
    Decimal.splitFraction (fraction ++ exponent) = (fraction.drop 1, exponent) := by
  have hhead : ∀ c ∈ exponent.head?, c.isDigit = false := by
    intro c hc
    rcases hexponent.head? c hc with rfl | rfl <;> decide
  cases hfraction with
  | none =>
      cases hexponent with
      | none => rfl
      | some hc _ _ _ => rcases hc with rfl | rfl <;> rfl
  | some hdigits =>
      rw [List.cons_append, Decimal.splitFraction, takeWhile_append_of_head? hdigits hhead,
        dropWhile_append_of_head? hdigits hhead]
      rfl

theorem readUnsigned?_isSome {cs : List Char} (h : numberRun cs ≠ []) :
    (Decimal.readUnsigned? (numberRun cs)).isSome := by
  obtain ⟨whole, fraction, exponent, hparts, hwhole, hfraction, hexponent, hsome⟩ :=
    numberRun_eq h
  have hhead : ∀ c ∈ (fraction ++ exponent).head?, c.isDigit = false := by
    intro c hc
    cases hfraction with
    | none => rcases hexponent.head? c hc with rfl | rfl <;> decide
    | some _ =>
        obtain rfl : '.' = c := by simpa using hc
        decide
  rw [hparts, Decimal.readUnsigned?]
  simp only [takeWhile_append_of_head? hwhole hhead, dropWhile_append_of_head? hwhole hhead,
    splitFraction_append hfraction hexponent]
  rw [if_neg, Option.isSome_map]
  · exact hexponent.isSome
  · rcases hsome with hw | hf
    · simp [hw]
    · simp only [Bool.and_eq_true, List.isEmpty_iff, List.drop_eq_nil_iff, not_and]
      omega

/-- Every token is the longest one where it begins. -/
theorem longest?_of_mem_scanFrom {pending offset : Nat} {cs : List Char}
    {tokens : List Token} (h : scanFrom pending offset cs = .ok tokens) {t : Token}
    (ht : t ∈ tokens) : ∃ rest, longest? rest = some (t.kind, t.lexeme.toList) := by
  induction cs generalizing pending offset tokens with
  | nil =>
      have : tokens = [] := by cases pending <;> simpa [scanFrom] using h.symm
      simp [this] at ht
  | cons c cs ih =>
      cases pending with
      | succ pending => exact ih h ht
      | zero =>
          rw [scanFrom] at h
          split at h
          next => exact ih h ht
          next =>
            split at h
            next => simp at h
            next kind lexeme hlongest =>
              simp only at h
              split at h
              next tokens' hrest =>
                obtain rfl : _ :: tokens' = tokens := Except.ok.inj h
                rcases List.mem_cons.1 ht with rfl | ht'
                · exact ⟨c :: cs, by simpa using hlongest⟩
                · exact ih hrest ht'
              next => simp at h

theorem longest?_of_mem_scan {text : String} {tokens : List Token}
    (h : scan text = .ok tokens) {t : Token} (ht : t ∈ tokens) :
    ∃ rest, longest? rest = some (t.kind, t.lexeme.toList) :=
  longest?_of_mem_scanFrom h ht

/-- Scanning fails only at a character that begins no token. -/
theorem eq_of_scanFrom_eq_error {pending offset : Nat} {cs : List Char} {fault : Fault}
    (h : scanFrom pending offset cs = .error fault) :
    ∃ span lexeme, fault = ⟨[span], .unknownText lexeme⟩ := by
  induction cs generalizing pending offset with
  | nil => cases pending <;> simp [scanFrom] at h
  | cons c cs ih =>
      cases pending with
      | succ pending => exact ih h
      | zero =>
          rw [scanFrom] at h
          split at h
          next => exact ih h
          next =>
            split at h
            next => exact ⟨_, _, (Except.error.inj h).symm⟩
            next =>
              simp only at h
              split at h
              next => simp at h
              next hrest =>
                obtain rfl := Except.error.inj h
                exact ih hrest

/-- The three sorts of tokens. -/
theorem longest?_eq_some {cs lexeme : List Char} {kind : TokenClass}
    (h : longest? cs = some (kind, lexeme)) :
    (∃ c ∈ cs.head?, symbolKind? c = some kind ∧ lexeme = [c]) ∨
      (kind = .name ∧ lexeme = nameRun cs ∧ ∃ c ∈ cs.head?, c.isAlpha) ∨
      (kind = .number ∧ lexeme = numberRun cs ∧ numberRun cs ≠ []) := by
  cases cs with
  | nil => simp [longest?] at h
  | cons c rest =>
      rw [longest?] at h
      split at h
      next kind' hsymbol =>
        obtain ⟨rfl, rfl⟩ := Prod.mk.inj (Option.some.inj h)
        exact .inl ⟨c, rfl, hsymbol, rfl⟩
      next =>
        split at h
        next halpha =>
          obtain ⟨rfl, rfl⟩ := Prod.mk.inj (Option.some.inj h)
          exact .inr (.inl ⟨rfl, rfl, c, rfl, halpha⟩)
        next =>
          split at h
          next => simp at h
          next lexeme' hrun hsome =>
            obtain ⟨rfl, rfl⟩ := Prod.mk.inj (Option.some.inj h)
            exact .inr (.inr ⟨rfl, rfl, hsome⟩)

theorem symbolKind?_ne {c : Char} {kind : TokenClass} (h : symbolKind? c = some kind) :
    kind ≠ .name ∧ kind ≠ .number := by
  unfold symbolKind? at h
  split at h
  iterate 7
    obtain rfl := Option.some.inj h
    decide
  exact nomatch h

/-- Every number of a text can be read. -/
theorem readable_of_mem_scan {text : String} {tokens : List Token}
    (h : scan text = .ok tokens) {t : Token} (ht : t ∈ tokens) (hkind : t.kind = .number) :
    (Decimal.readUnsigned? t.lexeme.toList).isSome := by
  obtain ⟨rest, hlongest⟩ := longest?_of_mem_scan h ht
  obtain ⟨c, -, hsymbol, -⟩ | ⟨hname, -⟩ | ⟨-, hlexeme, hsome⟩ := longest?_eq_some hlongest
  · exact absurd hkind (symbolKind?_ne hsymbol).2
  · exact absurd (hname.symm.trans hkind) (by decide)
  · rw [hlexeme]
    exact readUnsigned?_isSome hsome

/-- The texts of names: letters, then digits. -/
def IsName (cs : List Char) : Prop :=
  ∃ letters digits, cs = letters ++ digits ∧ letters ≠ [] ∧ (∀ c ∈ letters, c.isAlpha) ∧
    ∀ c ∈ digits, c.isDigit

theorem isName_nameRun {cs : List Char} {c : Char} (hc : c ∈ cs.head?) (halpha : c.isAlpha) :
    IsName (nameRun cs) := by
  refine ⟨_, _, rfl, ?_, fun c => ?_, fun c => digitRun_isDigit⟩
  · obtain ⟨cs, rfl⟩ := List.head?_eq_some_iff.1 hc
    simp [halpha]
  · exact List.all_eq_true.1 List.all_takeWhile c

/-- Every name of a text is letters with digits after them. -/
theorem isName_of_mem_scan {text : String} {tokens : List Token}
    (h : scan text = .ok tokens) {t : Token} (ht : t ∈ tokens) (hkind : t.kind = .name) :
    IsName t.lexeme.toList := by
  obtain ⟨rest, hlongest⟩ := longest?_of_mem_scan h ht
  obtain ⟨c, -, hsymbol, -⟩ | ⟨-, hlexeme, c, hc, halpha⟩ | ⟨hnumber, -⟩ :=
    longest?_eq_some hlongest
  · exact absurd hkind (symbolKind?_ne hsymbol).1
  · exact hlexeme ▸ isName_nameRun hc halpha
  · exact absurd (hnumber.symm.trans hkind) (by decide)

end Token

end FormulaGrading
