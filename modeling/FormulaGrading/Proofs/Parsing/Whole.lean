import FormulaGrading.Parser
import FormulaGrading.Proofs.Parsing.Complete
import FormulaGrading.Proofs.Parsing.Sound
import FormulaGrading.Proofs.Scanning

/-!
Whole texts. A text is a formula exactly as the grammar derives it within the descents
there are, and a text that is none has the fault that its tokens show, unless it is nested
too deeply.
-/

namespace FormulaGrading

open Level Reading

/-- No closing bracket comes first where all brackets are balanced. -/
theorem Balanced.not_closeBracket {t : Token} {rest : List Token}
    (h : Balanced (t :: rest)) : t.kind ≠ .closeBracket := by
  intro hclose
  rw [← balancedAfter_zero, balancedAfter_cons_close hclose] at h
  obtain ⟨_, hzero, -⟩ := h
  exact Nat.noConfusion hzero

section

variable {declared : List String} {text : String} {tokens : List Token}

theorem inOrder_of_scan (hscan : Token.scan text = .ok tokens) (hbalanced : Balanced tokens) :
    InOrder tokens :=
  ⟨⟨0, balancedAfter_zero.2 hbalanced⟩, fun _ => Token.readable_of_mem_scan hscan⟩

/-- Reading from the start of balanced tokens reaches their end, or meets their first
fault. -/
theorem ends_formula_start (declared : List String) (n : Nat) (horder : InOrder tokens)
    (hbalanced : Balanced tokens) (hsome : tokens ≠ []) :
    Ends (fun e c => DerivesWithin declared n (n + 1) .loosest tokens e [] ∧ c.after = [])
      (fun fault => (∃ t ∈ tokens, fault = ⟨[t.span], .tooDeep nestingLimit⟩) ∨
        firstFault? declared none tokens = some fault)
      ((ofDescents declared n).formula (.start tokens)) := by
  refine ((reads_ofDescents declared n).formula (.start tokens)).mono ?_ ?_
  · intro e c ⟨hderived, hnext⟩
    have hend : c.after = [] := by
      obtain hnil | ⟨t, rest, hafter, hclose⟩ := eq_nil_or_closeBracket hnext
      · exact hnil
      · have hrest : BalancedAfter 0 c.after :=
          hderived.within.derives.balancedAfter_iff.1 (balancedAfter_zero.2 hbalanced)
        rw [hafter, balancedAfter_zero] at hrest
        exact absurd hclose hrest.not_closeBracket
    exact ⟨hend ▸ hderived.within, hend⟩
  · intro fault hblames
    have hdue : OperandDue (.start tokens) := ⟨rfl, hsome, .inl rfl⟩
    exact hblames hdue horder

/-- There is at most one formula that a row of tokens derives. -/
theorem Derives.unique {e e' : Formula} (h : Derives declared .loosest tokens e [])
    (h' : Derives declared .loosest tokens e' []) : e = e' := by
  obtain ⟨n, hn⟩ := h.within
  obtain ⟨k, hk⟩ := h'.within
  have hend : Fits .loosest [] := (stops_of_none rfl).fits
  obtain ⟨before, hread⟩ := isRead_of_within (hn (n + k) (by omega)) hend []
  obtain ⟨before', hread'⟩ := isRead_of_within (hk (n + k) (by omega)) hend []
  have heq := (formula_of_isRead hread rfl).symm.trans (formula_of_isRead hread' rfl)
  exact Except.ok.inj (Prod.mk.inj heq).1

theorem tokensOf_of_length_le (hscan : Token.scan text = .ok tokens)
    (hlength : tokens.length ≤ tokenLimit) : Parser.tokensOf text = .ok tokens := by
  simp [Parser.tokensOf, hscan, List.drop_eq_nil_of_le hlength]

theorem parse_of_tokensOf (h : Parser.tokensOf text = .ok tokens) :
    Formula.parse declared text =
      match bracketFault? tokens with
      | some fault => .error fault
      | none =>
          match (ofDescents declared nestingLimit).formula (.start tokens) with
          | (.ok e, c) =>
              match c.here? with
              | some t => .error (Parser.leftoverFault t)
              | none => .ok e
          | (.error fault, _) => .error fault := by
  simp only [Formula.parse, Parser.readWhole, Parser.ofText, h, Cursor.tokens_start,
    Parser.read, Parser.level, Nat.sub_zero]
  cases bracketFault? tokens with
  | some fault => rfl
  | none =>
      rcases (ofDescents declared nestingLimit).formula (.start tokens) with ⟨fault | e, c⟩
      · rfl
      · simp only
        cases c.here? <;> rfl

theorem parse_of_scan_error {fault : Fault} (h : Token.scan text = .error fault) :
    Formula.parse declared text = .error fault := by
  simp [Formula.parse, Parser.readWhole, Parser.ofText, Parser.tokensOf, h]

/-- The first token beyond the limit is at fault. -/
theorem parse_of_excess {t : Token} (hscan : Token.scan text = .ok tokens)
    (h : tokens[tokenLimit]? = some t) :
    Formula.parse declared text = .error ⟨[t.span], .tooLong tokenLimit⟩ := by
  have hdrop : ∃ rest, tokens.drop tokenLimit = t :: rest := by
    rw [← List.head?_drop] at h
    exact List.head?_eq_some_iff.1 h
  obtain ⟨rest, hrest⟩ := hdrop
  simp [Formula.parse, Parser.readWhole, Parser.ofText, Parser.tokensOf, hscan, hrest]

theorem parse_of_unbalanced {fault : Fault} (hscan : Token.scan text = .ok tokens)
    (hlength : tokens.length ≤ tokenLimit) (h : bracketFault? tokens = some fault) :
    Formula.parse declared text = .error fault := by
  rw [parse_of_tokensOf (tokensOf_of_length_le hscan hlength), h]

/-- Where the brackets are balanced, the outcome is that of reading from the start. -/
theorem parse_of_balanced (hscan : Token.scan text = .ok tokens)
    (hlength : tokens.length ≤ tokenLimit) (hbalanced : Balanced tokens) :
    Formula.parse declared text =
      ((ofDescents declared nestingLimit).formula (.start tokens)).1 := by
  rw [parse_of_tokensOf (tokensOf_of_length_le hscan hlength),
    bracketFault?_eq_none_iff.2 hbalanced]
  by_cases hnil : tokens = []
  · subst hnil
    rfl
  · have hends := ends_formula_start declared nestingLimit
      (inOrder_of_scan hscan hbalanced) hbalanced hnil
    simp only
    revert hends
    rcases (ofDescents declared nestingLimit).formula (.start tokens) with ⟨fault | e, c⟩
    · exact fun _ => rfl
    · intro hends
      simp [Cursor.here?, hends.2]

/-- There is no token that could be at fault. -/
theorem parse_of_no_tokens (declared : List String) (hscan : Token.scan text = .ok []) :
    Formula.parse declared text = .error ⟨[⟨0, 0⟩], .missingFormula⟩ := by
  rw [parse_of_balanced hscan (Nat.zero_le _) (balancedAfter_zero.1 (by simp))]
  rfl

/-- The formula of a text is the one that the grammar derives within the descents there
are. -/
theorem parse_eq_ok_iff (hscan : Token.scan text = .ok tokens)
    (hlength : tokens.length ≤ tokenLimit) (hbalanced : Balanced tokens) {e : Formula} :
    Formula.parse declared text = .ok e ↔
      DerivesWithin declared nestingLimit (nestingLimit + 1) .loosest tokens e [] := by
  rw [parse_of_balanced hscan hlength hbalanced]
  constructor
  · intro hparse
    by_cases hnil : tokens = []
    · subst hnil
      exact nomatch hparse
    · have hends := ends_formula_start declared nestingLimit
        (inOrder_of_scan hscan hbalanced) hbalanced hnil
      revert hends hparse
      rcases (ofDescents declared nestingLimit).formula (.start tokens) with ⟨fault | e', c⟩
      · exact fun hparse => nomatch hparse
      · intro hparse hends
        exact Except.ok.inj hparse ▸ hends.1
  · intro hwithin
    have hend : Fits .loosest [] := (stops_of_none rfl).fits
    obtain ⟨before, hread⟩ := isRead_of_within hwithin hend []
    rw [Cursor.start, formula_of_isRead hread rfl]

/-- A text that is a formula passed all checks. -/
theorem exists_within_of_parse {e : Formula} (h : Formula.parse declared text = .ok e) :
    ∃ tokens, Token.scan text = .ok tokens ∧ tokens.length ≤ tokenLimit ∧ Balanced tokens ∧
      DerivesWithin declared nestingLimit (nestingLimit + 1) .loosest tokens e [] := by
  cases hscan : Token.scan text with
  | error fault => exact nomatch (parse_of_scan_error hscan).symm.trans h
  | ok tokens =>
      have hlength : tokens.length ≤ tokenLimit := by
        refine Nat.le_of_not_lt fun hexcess => ?_
        have hget := List.getElem?_eq_getElem hexcess
        exact nomatch (parse_of_excess hscan hget).symm.trans h
      have hbalanced : Balanced tokens := by
        cases hfault : bracketFault? tokens with
        | none => exact bracketFault?_eq_none_iff.1 hfault
        | some fault => exact nomatch (parse_of_unbalanced hscan hlength hfault).symm.trans h
      exact ⟨tokens, rfl, hlength, hbalanced, (parse_eq_ok_iff hscan hlength hbalanced).1 h⟩

/-- A text that is a formula is a phrase as a whole. -/
theorem exists_phrase_of_parse {e : Formula} (h : Formula.parse declared text = .ok e) :
    ∃ tokens, Token.scan text = .ok tokens ∧ Phrase tokens e := by
  obtain ⟨tokens, hscan, -, -, hwithin⟩ := exists_within_of_parse h
  obtain ⟨passed, hpassed, hphrase⟩ := hwithin.derives.phrase
  rw [List.append_nil] at hpassed
  exact ⟨tokens, hscan, hpassed ▸ hphrase⟩

/-- Behind balanced brackets there are three outcomes: a formula, nesting that is too deep at
some token, or the first fault of the tokens. -/
theorem parse_outcome_at (declared : List String) (hscan : Token.scan text = .ok tokens)
    (hlength : tokens.length ≤ tokenLimit) (hbalanced : Balanced tokens)
    (hsome : tokens ≠ []) :
    (∃ e, Formula.parse declared text = .ok e ∧ Derives declared .loosest tokens e []) ∨
      ∃ fault, Formula.parse declared text = .error fault ∧
        ((∃ t ∈ tokens, fault = ⟨[t.span], .tooDeep nestingLimit⟩) ∨
          firstFault? declared none tokens = some fault) := by
  have hends := ends_formula_start declared nestingLimit
    (inOrder_of_scan hscan hbalanced) hbalanced hsome
  rw [parse_of_balanced hscan hlength hbalanced]
  revert hends
  rcases (ofDescents declared nestingLimit).formula (.start tokens) with ⟨fault | e, c⟩
  · exact fun hends => .inr ⟨fault, rfl, hends⟩
  · exact fun hends => .inl ⟨e, rfl, hends.1.derives⟩

theorem parse_outcome (declared : List String) (hscan : Token.scan text = .ok tokens)
    (hlength : tokens.length ≤ tokenLimit) (hbalanced : Balanced tokens)
    (hsome : tokens ≠ []) :
    (∃ e, Formula.parse declared text = .ok e ∧ Derives declared .loosest tokens e []) ∨
      ∃ fault, Formula.parse declared text = .error fault ∧
        (fault.cause = .tooDeep nestingLimit ∨ firstFault? declared none tokens = some fault) := by
  refine (parse_outcome_at declared hscan hlength hbalanced hsome).imp_right ?_
  rintro ⟨fault, herror, ⟨t, -, rfl⟩ | hfault⟩
  · exact ⟨_, herror, .inl rfl⟩
  · exact ⟨fault, herror, .inr hfault⟩

/-- The causes of faults in reading a row of tokens. -/
def Cause.IsOfTokens : Cause → Prop
  | .unclosedBracket | .unopenedBracket | .tooDeep _ | .tooLong _ => True
  | cause => cause.IsLocal

theorem Cause.IsLocal.isOfTokens {cause : Cause} (h : cause.IsLocal) : cause.IsOfTokens := by
  cases cause <;> first | exact h | trivial

/-- A fault of reading a row of tokens is at one of them, unless there is none. -/
theorem fault_of_parse {fault : Fault} (hscan : Token.scan text = .ok tokens)
    (h : Formula.parse declared text = .error fault) :
    fault.cause.IsOfTokens ∧ ((tokens = [] ∧ fault = ⟨[⟨0, 0⟩], .missingFormula⟩) ∨
      ∃ t ∈ tokens, fault.spans = [t.span]) := by
  by_cases hlength : tokens.length ≤ tokenLimit
  · cases hbracket : bracketFault? tokens with
    | some found =>
        obtain rfl := Except.error.inj
          ((parse_of_unbalanced hscan hlength hbracket).symm.trans h)
        obtain ⟨span, hmem | ⟨t, ht, rfl⟩, rfl | rfl⟩ := bracketFaultFrom?_at hbracket
        · exact nomatch hmem
        · exact nomatch hmem
        · exact ⟨trivial, .inr ⟨t, ht, rfl⟩⟩
        · exact ⟨trivial, .inr ⟨t, ht, rfl⟩⟩
    | none =>
        have hbalanced := bracketFault?_eq_none_iff.1 hbracket
        by_cases hsome : tokens = []
        · subst hsome
          obtain rfl := Except.error.inj ((parse_of_no_tokens declared hscan).symm.trans h)
          exact ⟨trivial, .inl ⟨rfl, rfl⟩⟩
        · obtain ⟨e, hok, -⟩ | ⟨found, herror, hfound⟩ :=
            parse_outcome_at declared hscan hlength hbalanced hsome
          · exact nomatch hok.symm.trans h
          · obtain rfl := Except.error.inj (herror.symm.trans h)
            obtain ⟨t, ht, rfl⟩ | hfirst := hfound
            · exact ⟨trivial, .inr ⟨t, ht, rfl⟩⟩
            · obtain ⟨hspans, hlocal⟩ := firstFault?_at hfirst
              exact ⟨hlocal.isOfTokens, .inr hspans⟩
  · have hget := List.getElem?_eq_getElem (Nat.lt_of_not_le hlength)
    obtain rfl := Except.error.inj ((parse_of_excess hscan hget).symm.trans h)
    exact ⟨trivial, .inr ⟨_, List.getElem_mem _, rfl⟩⟩

end

/-- A derived row of tokens shows no fault. -/
theorem Derives.firstFault?_eq_none {declared : List String} {tokens : List Token}
    {e : Formula} (h : Derives declared .loosest tokens e []) :
    firstFault? declared none tokens = none := by
  obtain ⟨_, last, -, -, hfault⟩ := h.firstFault?_eq
  rw [hfault none (by simp), firstFault?_nil]

/-- Reading yields only what the grammar derives. What the grammar derives is what reading
yields, or else it is nested too deeply. -/
theorem parse_agrees_with_grammar (declared : List String) (text : String)
    (tokens : List Token) (hscan : Token.scan text = .ok tokens)
    (hlength : tokens.length ≤ 1024) (hbalanced : Balanced tokens) :
    (∀ e, Formula.parse declared text = .ok e → Derives declared .loosest tokens e []) ∧
      ∀ e, Derives declared .loosest tokens e [] →
        Formula.parse declared text = .ok e ∨
          ∃ fault, Formula.parse declared text = .error fault ∧
            fault.cause = .tooDeep nestingLimit := by
  constructor
  · intro e hparse
    exact ((parse_eq_ok_iff hscan hlength hbalanced).1 hparse).derives
  · intro e hderives
    have hsome : tokens ≠ [] := by
      rintro rfl
      exact Nat.not_lt_zero _ hderives.length_lt
    obtain ⟨e', hparse, hderives'⟩ | ⟨fault, hparse, hdeep | hfault⟩ :=
      parse_outcome declared hscan hlength hbalanced hsome
    · exact .inl (hderives.unique hderives' ▸ hparse)
    · exact .inr ⟨fault, hparse, hdeep⟩
    · rw [hderives.firstFault?_eq_none] at hfault
      exact nomatch hfault

/-- A sign reaches over a power. -/
theorem derives_minus_power :
    Derives [] .loosest [⟨.subtract, "-", ⟨0, 1⟩⟩, ⟨.name, "x", ⟨1, 2⟩⟩,
        ⟨.power, "^", ⟨2, 3⟩⟩, ⟨.name, "y", ⟨3, 4⟩⟩]
      (.signed ⟨.minus, ⟨0, 1⟩⟩ (.binary (.symbol ⟨"x", ⟨1, 2⟩⟩) ⟨.power, false, ⟨2, 3⟩⟩
        (.symbol ⟨"y", ⟨3, 4⟩⟩) ⟨1, 4⟩) ⟨0, 4⟩) [] := by
  have hscan : Token.scan "-x^y" = .ok [⟨.subtract, "-", ⟨0, 1⟩⟩, ⟨.name, "x", ⟨1, 2⟩⟩,
      ⟨.power, "^", ⟨2, 3⟩⟩, ⟨.name, "y", ⟨3, 4⟩⟩] := rfl
  refine (parse_agrees_with_grammar [] "-x^y" _ hscan (by decide) ?_).1 _ rfl
  exact bracketFault?_eq_none_iff.1 rfl

/-- The outcome of every text. Scanning may fail, there may be too many tokens, brackets may
be unbalanced, or there may be no token. Else the outcome is nesting that is too deep, or
it is what going through the tokens from left to right finds, one neighbour on either side
being seen. -/
theorem parse_verdict (declared : List String) (text : String) :
    (∀ fault, Token.scan text = .error fault →
      Formula.parse declared text = .error fault ∧
        ∃ span lexeme, fault = ⟨[span], .unknownText lexeme⟩) ∧
    ∀ tokens, Token.scan text = .ok tokens →
      (∀ t, tokens[1024]? = some t →
        Formula.parse declared text = .error ⟨[t.span], .tooLong 1024⟩) ∧
      (tokens.length ≤ 1024 →
        ((∃ fault, Formula.parse declared text = .error fault ∧
            (fault.cause = .unclosedBracket ∨ fault.cause = .unopenedBracket)) ↔
          ¬ Balanced tokens) ∧
        (tokens = [] → Formula.parse declared text = .error ⟨[⟨0, 0⟩], .missingFormula⟩) ∧
        (Balanced tokens → tokens ≠ [] →
          (∃ fault, Formula.parse declared text = .error fault ∧ fault.cause = .tooDeep 256) ∨
            match firstFault? declared none tokens with
            | some fault => Formula.parse declared text = .error fault
            | none => ∃ e, Formula.parse declared text = .ok e)) := by
  refine ⟨fun fault hscan => ⟨parse_of_scan_error hscan, Token.eq_of_scanFrom_eq_error hscan⟩,
    fun tokens hscan => ⟨fun t ht => parse_of_excess hscan ht, fun hlength => ?_⟩⟩
  have hnil : tokens = [] →
      Formula.parse declared text = .error ⟨[⟨0, 0⟩], .missingFormula⟩ := by
    rintro rfl
    rw [parse_of_balanced hscan hlength (balancedAfter_zero.1 (by simp))]
    rfl
  refine ⟨⟨?_, ?_⟩, hnil, ?_⟩
  · rintro ⟨fault, hparse, hcause⟩ hbalanced
    by_cases hsome : tokens = []
    · rw [hnil hsome] at hparse
      obtain rfl := Except.error.inj hparse
      simp at hcause
    · obtain ⟨e, hok, -⟩ | ⟨fault', herror, hdeep | hfault⟩ :=
        parse_outcome declared hscan hlength hbalanced hsome
      · exact nomatch hparse.symm.trans hok
      · obtain rfl := Except.error.inj (hparse.symm.trans herror)
        simp [hdeep] at hcause
      · obtain rfl := Except.error.inj (hparse.symm.trans herror)
        obtain ⟨hclosed, hopened⟩ := cause_of_firstFault? hfault
        exact hcause.elim hclosed hopened
  · intro hunbalanced
    obtain ⟨fault, hfault⟩ := Option.ne_none_iff_exists'.1
      (mt bracketFault?_eq_none_iff.1 hunbalanced)
    refine ⟨fault, parse_of_unbalanced hscan hlength hfault, ?_⟩
    obtain ⟨span, rfl | rfl⟩ := cause_of_bracketFaultFrom? hfault
    · exact .inl rfl
    · exact .inr rfl
  · intro hbalanced hsome
    obtain ⟨e, hok, hderives⟩ | ⟨fault, herror, hdeep | hfault⟩ :=
      parse_outcome declared hscan hlength hbalanced hsome
    · refine .inr ?_
      rw [hderives.firstFault?_eq_none]
      exact ⟨e, hok⟩
    · exact .inl ⟨fault, herror, hdeep⟩
    · refine .inr ?_
      rw [hfault]
      exact herror

end FormulaGrading
