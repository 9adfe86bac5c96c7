import FormulaGrading.Proofs.Scanning.Breaks

/-!
The rules of tokens. A rule tells whole lexemes of a kind from other texts and knows nothing of
what comes behind. Scanning finds the longest lexeme of any rule at a place, and it finds one
wherever a rule matches: an exponent that was begun without digits is given back, and a point
only belongs to a number that has a digit beside it.
-/

namespace FormulaGrading.Token

/-- The lexemes of each kind of token. -/
inductive Matches : TokenClass → List Char → Prop where
  | add : Matches .add ['+']
  | subtract : Matches .subtract ['-']
  | multiply : Matches .multiply ['*']
  | divide : Matches .divide ['/']
  | power : Matches .power ['^']
  | openBracket : Matches .openBracket ['(']
  | closeBracket : Matches .closeBracket [')']
  | name {lexeme : List Char} (h : IsName lexeme) : Matches .name lexeme
  | number {whole fraction exponent : List Char} (hsome : whole ≠ [])
      (hwhole : ∀ d ∈ whole, d.isDigit) (hfraction : IsFraction fraction)
      (hexponent : IsExponent exponent) : Matches .number (whole ++ (fraction ++ exponent))
  | pointed {digits exponent : List Char} (hsome : digits ≠ [])
      (hdigits : ∀ d ∈ digits, d.isDigit) (hexponent : IsExponent exponent) :
      Matches .number ('.' :: digits ++ exponent)

/-- A lexeme that a rule matches at the front of the characters, while no rule matches more of
them. -/
structure IsLongestMatch (kind : TokenClass) (lexeme cs : List Char) : Prop where
  ofRule : Matches kind lexeme
  atFront : lexeme <+: cs
  longest : ∀ kind' lexeme', Matches kind' lexeme' → lexeme' <+: cs →
    lexeme'.length ≤ lexeme.length

/-! ### What scanning finds is matched -/

theorem matches_of_symbolKind? {c : Char} {kind : TokenClass} (h : symbolKind? c = some kind) :
    Matches kind [c] := by
  unfold symbolKind? at h
  split at h
  iterate 7
    obtain rfl := Option.some.inj h
    constructor
  exact nomatch h

theorem matches_number {whole fraction exponent : List Char} (hwhole : ∀ d ∈ whole, d.isDigit)
    (hfraction : IsFraction fraction) (hexponent : IsExponent exponent)
    (hsome : whole ≠ [] ∨ 2 ≤ fraction.length) :
    Matches .number (whole ++ (fraction ++ exponent)) := by
  by_cases hnil : whole = []
  · subst hnil
    have hlength := hsome.resolve_left (absurd rfl)
    cases hfraction with
    | none => exact absurd hlength (by decide)
    | some hdigits =>
        refine .pointed (fun hnone => ?_) hdigits hexponent
        exact absurd hlength (by simp [hnone])
  · exact .number hnil hwhole hfraction hexponent

theorem matches_of_longest? {cs lexeme : List Char} {kind : TokenClass}
    (h : longest? cs = some (kind, lexeme)) : Matches kind lexeme := by
  obtain ⟨c, -, hsymbol, rfl⟩ | ⟨rfl, rfl, c, hc, halpha⟩ | ⟨rfl, rfl, hsome⟩ :=
    longest?_eq_some h
  · exact matches_of_symbolKind? hsymbol
  · exact .name (isName_nameRun hc halpha)
  · obtain ⟨whole, fraction, exponent, hparts, hwhole, hfraction, hexponent, hdigit⟩ :=
      numberRun_eq hsome
    exact hparts ▸ matches_number hwhole hfraction hexponent hdigit

/-! ### What is matched is found -/

section

variable {whole fraction exponent : List Char} (rest : List Char)

theorem isPrefix_digitRun_append (hwhole : ∀ d ∈ whole, d.isDigit) :
    whole <+: digitRun (whole ++ rest) := by
  rw [digitRun, List.takeWhile_append_of_pos hwhole]
  exact List.prefix_append _ _

theorem isPrefix_nameRun_append {lexeme : List Char} (h : IsName lexeme) :
    lexeme <+: nameRun (lexeme ++ rest) := by
  obtain ⟨letters, digits, rfl, -, hletters, hdigits⟩ := h
  rw [List.append_assoc, nameRun]
  rcases digits with _ | ⟨d, digits⟩
  · rw [List.takeWhile_append_of_pos hletters, List.append_nil, List.append_assoc]
    exact List.prefix_append _ _
  · -- the letters end in front of the digits
    have hhead : ∀ c ∈ (d :: digits ++ rest).head?, c.isAlpha = false := by
      intro c hc
      obtain rfl := Option.some.inj hc
      exact isAlpha_eq_false_of_isDigit (hdigits d List.mem_cons_self)
    rw [takeWhile_append_of_head? hletters hhead, dropWhile_append_of_head? hletters hhead]
    exact (List.prefix_append_right_inj letters).2 (isPrefix_digitRun_append rest hdigits)

/-- A number goes at least as far as any that begins there. One without an exponent may take in
more digits, and one without a fraction may take in a point as well. -/
theorem isPrefix_numberRun_append (hwhole : ∀ d ∈ whole, d.isDigit)
    (hfraction : IsFraction fraction) (hexponent : IsExponent exponent)
    (hsome : whole ≠ [] ∨ 2 ≤ fraction.length) :
    whole ++ (fraction ++ exponent) <+: numberRun (whole ++ (fraction ++ exponent) ++ rest) := by
  rw [List.append_assoc whole, List.append_assoc fraction]
  cases hexponent with
  | @some c sign digits hc hsign hnonempty hdigits =>
      have hends : EndsMantissa (c :: (sign ++ digits) ++ rest) := endsMantissa_of_marker hc _
      rw [numberRun_append_of_endsMantissa hends hwhole hfraction hsome,
        exponentRun_append_digits hc hsign hnonempty hdigits]
      exact (List.prefix_append_right_inj whole).2
        ((List.prefix_append_right_inj fraction).2 (List.prefix_append _ _))
  | none =>
      rw [List.append_nil, List.nil_append]
      cases hfraction with
      | @some digits hdigits =>
          have hrun : digitRun (whole ++ ('.' :: digits ++ rest)) = whole :=
            takeWhile_append_of_head? hwhole (by simp)
          have hlonger : '.' :: digits <+: fractionRun ('.' :: digits ++ rest) :=
            List.cons_prefix_cons.2 ⟨rfl, isPrefix_digitRun_append rest hdigits⟩
          have hdigit := hsome.imp_right fun h => Nat.le_trans h hlonger.length_le
          rw [numberRun_append_of_digitRun hrun hdigit]
          exact (List.prefix_append_right_inj whole).2 (hlonger.trans (List.prefix_append _ _))
      | none =>
          have hlonger := isPrefix_digitRun_append rest hwhole
          have hnonempty : digitRun (whole ++ rest) ≠ [] := by
            intro hnil
            exact hsome.elim (absurd (List.prefix_nil.1 (hnil ▸ hlonger))) (absurd · (by decide))
          obtain ⟨behind, hbehind⟩ := digitRun_isPrefix (whole ++ rest)
          rw [List.append_nil, List.nil_append]
          rw [← hbehind, numberRun_append_of_digitRun (by rw [hbehind]) (.inl hnonempty)]
          exact hlonger.trans (List.prefix_append _ _)

/-- A number is told by its first character. -/
theorem exists_longest?_number (hwhole : ∀ d ∈ whole, d.isDigit)
    (hfraction : IsFraction fraction) (hexponent : IsExponent exponent)
    (hsome : whole ≠ [] ∨ 2 ≤ fraction.length) :
    ∃ found, longest? (whole ++ (fraction ++ exponent) ++ rest) = some (.number, found) ∧
      whole ++ (fraction ++ exponent) <+: found := by
  have hlonger := isPrefix_numberRun_append rest hwhole hfraction hexponent hsome
  obtain ⟨c, cs, hcons, hc⟩ : ∃ c cs, whole ++ (fraction ++ exponent) = c :: cs ∧
      (c.isDigit ∨ c = '.') := by
    cases whole with
    | cons d whole => exact ⟨d, _, rfl, .inl (hwhole d List.mem_cons_self)⟩
    | nil =>
        cases hfraction with
        | some _ => exact ⟨'.', _, rfl, .inr rfl⟩
        | none => exact absurd hsome (by decide)
  rw [hcons, List.cons_append] at hlonger ⊢
  exact ⟨_, longest?_number hc (hlonger.ne_nil (List.cons_ne_nil c cs)), hlonger⟩

end

/-- Where a rule matches, its kind of token is found, with all that the rule matches. -/
theorem exists_longest?_of_matches {kind : TokenClass} {lexeme cs : List Char}
    (h : Matches kind lexeme) (hfront : lexeme <+: cs) :
    ∃ found, longest? cs = some (kind, found) ∧ lexeme <+: found := by
  obtain ⟨rest, rfl⟩ := hfront
  cases h with
  | name hname =>
      have hlonger := isPrefix_nameRun_append rest hname
      obtain ⟨letters, digits, rfl, hsome, hletters, -⟩ := hname
      obtain ⟨c, letters, rfl⟩ := List.exists_cons_of_ne_nil hsome
      exact ⟨_, longest?_name (hletters c List.mem_cons_self) _, hlonger⟩
  | number hsome hwhole hfraction hexponent =>
      exact exists_longest?_number rest hwhole hfraction hexponent (.inl hsome)
  | pointed hsome hdigits hexponent =>
      have hnone : ∀ d ∈ ([] : List Char), d.isDigit := nofun
      exact exists_longest?_number rest hnone (.some hdigits) hexponent
        (.inr (Nat.succ_le_succ (List.length_pos_iff.2 hsome)))
  | _ => exact ⟨_, rfl, List.prefix_rfl⟩

/-- Scanning takes the longest match. -/
theorem longest?_eq_some_iff {kind : TokenClass} {lexeme cs : List Char} :
    longest? cs = some (kind, lexeme) ↔ IsLongestMatch kind lexeme cs := by
  constructor
  · intro h
    refine ⟨matches_of_longest? h, (longest?_isPrefix h).2, fun kind' lexeme' h' hfront => ?_⟩
    obtain ⟨found, hfound, hle⟩ := exists_longest?_of_matches h' hfront
    obtain ⟨-, rfl⟩ := Prod.mk.inj (Option.some.inj (hfound.symm.trans h))
    exact hle.length_le
  · intro h
    obtain ⟨found, hfound, hle⟩ := exists_longest?_of_matches h.ofRule h.atFront
    have hge := h.longest kind found (matches_of_longest? hfound) (longest?_isPrefix hfound).2
    rw [hfound, hle.eq_of_length_le hge]

/-- Scanning takes nothing only where no rule matches. -/
theorem longest?_eq_none_iff {cs : List Char} :
    longest? cs = none ↔ ∀ kind lexeme, Matches kind lexeme → ¬lexeme <+: cs := by
  constructor
  · intro h kind lexeme hmatches hfront
    obtain ⟨found, hfound, -⟩ := exists_longest?_of_matches hmatches hfront
    exact nomatch h.symm.trans hfound
  · intro h
    rw [Option.eq_none_iff_forall_ne_some]
    rintro ⟨kind, lexeme⟩ hfound
    exact h kind lexeme (matches_of_longest? hfound) (longest?_isPrefix hfound).2

end FormulaGrading.Token
