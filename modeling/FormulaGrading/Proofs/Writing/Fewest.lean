import FormulaGrading.Proofs.Writing.RoundTrip

/-!
The written form has as few brackets as any text of the same formula. Where an operand is
looser than its layer, the grammar has no other way to it than a group, and so every text has a
bracket wherever the written form has one. A text in which some brackets of the written form
are missing is therefore read as another formula, if it is read at all.
-/

namespace FormulaGrading

/-- The number of opening brackets among words. -/
def openingWords (words : List Word) : Nat :=
  words.countP fun w => w.kind == .openBracket

@[simp] theorem openingWords_nil : openingWords [] = 0 := rfl

@[simp] theorem openingWords_cons (w : Word) (words : List Word) :
    openingWords (w :: words) =
      openingWords words + if w.kind = .openBracket then 1 else 0 := by
  simp [openingWords, List.countP_cons]

@[simp] theorem openingWords_append (words words' : List Word) :
    openingWords (words ++ words') = openingWords words + openingWords words' :=
  List.countP_append

/-! ### Brackets that reading needs -/

theorem Operation.kind_ne_openBracket (op : Operation) : op.word.kind ≠ .openBracket := by
  cases op <;> decide

theorem Sign.kind_ne_openBracket (sign : Sign) : sign.word.kind ≠ .openBracket := by
  cases sign <;> decide

namespace Formula

theorem openingWords_mono {p q : Precedence} (hle : p.rank ≤ q.rank) (e : Formula) :
    openingWords (e.operandWords p) ≤ openingWords (e.operandWords q) :=
  (e.operandWords_sublist hle).countP_le

theorem openingWords_le (p : Precedence) (e : Formula) :
    openingWords (e.operandWords p) ≤ openingWords e.words + 1 := by
  unfold operandWords bracketedWordsIf
  split <;> simp

theorem openingWords_combine (l r : Formula) (op : OperatorMark) :
    openingWords ((l.combine op r).operandWords op.precedence) =
      openingWords (l.operandWords op.operation.leftOperand) +
        openingWords (r.operandWords op.operation.rightOperand) := by
  have hprecedence : (l.combine op r).precedence = op.precedence := rfl
  rw [operandWords_of_le (by rw [hprecedence]), words_combine]
  simp [op.operation.kind_ne_openBracket]

end Formula

/-- A phrase opens at least the brackets with which its formula is written. -/
theorem Derives.openingWords_le {declared : List String} {p : Precedence}
    {ts rest : List Token} {e : Formula} (h : Derives declared p ts e rest) :
    openingWords (e.operandWords p) + openings rest ≤ openings ts := by
  induction h with
  | @loosen _ _ _ _ e hle _ ih =>
      have := e.openingWords_mono hle
      omega
  | @binary op ts ts' rest t l r _ _ _ ihl ihr =>
      have hcombine : openingWords ((l.combine ⟨op, false, t.span⟩ r).operandWords op.precedence) =
        openingWords (l.operandWords op.leftOperand) +
          openingWords (r.operandWords op.rightOperand) :=
        Formula.openingWords_combine l r ⟨op, false, t.span⟩
      rw [openings_cons] at ihl
      omega
  | @adjacent _ _ _ _ last first l r _ _ _ ihl ihr =>
      have hcombine : openingWords
          ((l.combine ⟨.multiply, true, last.span.gap first.span⟩ r).operandWords .product) =
        openingWords (l.operandWords .product) + openingWords (r.operandWords .sign) :=
        Formula.openingWords_combine l r _
      have := r.openingWords_mono (p := .sign) (q := .power) (by decide)
      omega
  | @signed sign _ _ t e _ _ ih =>
      show openingWords (sign.word :: e.operandWords .sign) + _ ≤ _
      rw [openingWords_cons, if_neg sign.kind_ne_openBracket, openings_cons]
      omega
  | number | symbol =>
      rw [openings_cons]
      exact Nat.le_add_right_of_le (Nat.le_of_eq (Nat.zero_add _))
  | @call f opening closing _ _ e _ _ hopen _ _ ih =>
      rw [Formula.operandWords_of_le (Nat.zero_le _), openings_cons] at ih
      show openingWords (_ :: _ :: (e.words ++ [_])) + _ ≤ _
      simp only [openingWords_cons, openingWords_append, openingWords_nil, openings_cons, hopen,
        reduceCtorEq, if_true, if_false]
      omega
  | @group opening closing _ _ e hopen _ _ ih =>
      rw [Formula.operandWords_of_le (Nat.zero_le _), openings_cons] at ih
      have := e.openingWords_le .atom
      rw [openings_cons, if_pos hopen]
      omega

/-! ### Brackets in texts -/

namespace Token

theorem openBracket_not_mem_of_isFraction {cs : List Char} (h : IsFraction cs) : '(' ∉ cs := by
  cases h with
  | none => exact List.not_mem_nil
  | some hdigits =>
      rw [List.mem_cons, not_or]
      exact ⟨by decide, fun hmem => absurd (hdigits _ hmem) (by decide)⟩

theorem openBracket_not_mem_of_isExponent {cs : List Char} (h : IsExponent cs) : '(' ∉ cs := by
  cases h with
  | none => exact List.not_mem_nil
  | some hc hsign _ hdigits =>
      rw [List.mem_cons, List.mem_append, not_or, not_or]
      refine ⟨?_, ?_, fun hmem => absurd (hdigits _ hmem) (by decide)⟩
      · rcases hc with rfl | rfl <;> decide
      · rcases hsign with rfl | rfl | rfl <;> decide

/-- The text of a token has an opening bracket only if the token is one. -/
theorem count_of_longest? {cs lexeme : List Char} {kind : TokenClass}
    (h : longest? cs = some (kind, lexeme)) :
    lexeme.count '(' = if kind = .openBracket then 1 else 0 := by
  obtain ⟨c, -, hsymbol, rfl⟩ | ⟨rfl, rfl, -⟩ | ⟨rfl, rfl, hsome⟩ := longest?_eq_some h
  · unfold symbolKind? at hsymbol
    split at hsymbol
    iterate 7
      obtain rfl := Option.some.inj hsymbol
      decide
    exact nomatch hsymbol
  · refine List.count_eq_zero.2 fun hmem => ?_
    obtain halpha | hdigit := List.mem_append.1 hmem
    · exact absurd (List.all_eq_true.1 List.all_takeWhile _ halpha) (by decide)
    · exact absurd (digitRun_isDigit hdigit) (by decide)
  · obtain ⟨whole, fraction, exponent, hparts, hwhole, hfraction, hexponent, -⟩ :=
      numberRun_eq hsome
    rw [if_neg (by decide), hparts, List.count_append, List.count_append,
      List.count_eq_zero.2 fun hmem => absurd (hwhole _ hmem) (by decide),
      List.count_eq_zero.2 (openBracket_not_mem_of_isFraction hfraction),
      List.count_eq_zero.2 (openBracket_not_mem_of_isExponent hexponent)]

/-- Scanned characters have an opening bracket for every token that is one. -/
theorem Scans.count_eq {offset stop : Nat} {cs rest : List Char} {tokens : List Token}
    (h : Scans offset cs tokens stop rest) :
    cs.count '(' = openings tokens + rest.count '(' := by
  induction h with
  | done => simp
  | @skip _ _ c _ _ _ hskipped _ ih =>
      have hne : c ≠ '(' := by
        rintro rfl
        exact absurd hskipped (by decide)
      rw [List.count_cons_of_ne hne, ih]
  | @token _ _ kind lexeme _ _ _ hlongest _ ih =>
      rw [List.count_append, count_of_longest? hlongest, ih, openings_cons, Nat.add_comm,
        Nat.add_right_comm]
      rfl

end Token

/-- Words that are scanned as what they are have an opening bracket for each that is one. -/
theorem count_wordChars {words : List Word} (h : ∀ w ∈ words, w.Lexical) :
    (wordChars words).count '(' = openingWords words := by
  induction words with
  | nil => rfl
  | cons w words ih =>
      obtain ⟨hw, hwords⟩ := List.forall_mem_cons.1 h
      have hend : Token.SymbolNext [] := by simp [Token.SymbolNext]
      have hlongest := Token.longest?_of_lexical hw (.inr hend)
      rw [wordChars_cons, List.count_append, ih hwords, openingWords_cons,
        Token.count_of_longest? hlongest, Nat.add_comm]

/-! ### The written form -/

/-- Places and products without tokens make no difference to the words of a formula. -/
theorem Formula.words_plain (e : Formula) : e.plain.words = e.words := by
  have hprecedence (e : Formula) : e.plain.precedence = e.precedence := by cases e <;> rfl
  have hsigned (e : Formula) : e.plain.isSigned = e.isSigned := by cases e <;> rfl
  induction e with
  | number | symbol => rfl
  | signed mark operand _ ih => simp [plain, words, hprecedence, ih]
  | binary lhs op rhs _ ihl ihr =>
      simp [plain, words, OperatorMark.bracketsLeft, OperatorMark.bracketsRight,
        OperatorMark.precedence, OperatorMark.groupsRight, hprecedence, hsigned, ihl, ihr]
  | call function argument _ _ ih => simp [plain, words, ih]

/-- A text has at least the brackets that the words of its formula have. -/
theorem openingWords_le_of_parse {declared : List String} {text : String} {e : Formula}
    (h : Formula.parse declared text = .ok e) :
    openingWords e.words ≤ text.toList.count '(' := by
  obtain ⟨tokens, hscan, -, -, hwithin⟩ := exists_within_of_parse h
  obtain ⟨stop, hscans⟩ := Token.scans_of_scan hscan
  have hle := hwithin.derives.openingWords_le
  rw [Formula.operandWords_of_le (Nat.zero_le _)] at hle
  rw [hscans.count_eq]
  simpa using hle

/-- A formula that was read is written with no more brackets than its words have. -/
theorem count_written {declared : List String} {text : String} {e : Formula}
    (h : Formula.parse declared text = .ok e) (hfinite : ∀ v ∈ e.literals, v.isFinite) :
    e.written.toList.count '(' = openingWords e.words := by
  obtain ⟨tokens, hscan, -, -, hwithin⟩ := exists_within_of_parse h
  rw [Formula.toList_written]
  refine count_wordChars (hwithin.derives.lexical_words
    (fun t ht => Token.isName_of_mem_scan hscan ht) fun v hv => ?_)
  obtain ⟨cs, hread⟩ := hwithin.derives.readUnsigned?_of_mem_literals hv
  exact (Decimal.text_read (hfinite v hv) (Decimal.isNegative_of_readUnsigned? hread)).1

/-- No text of a formula has fewer brackets than its written form. -/
theorem count_written_le {declared declared' : List String} {text text' : String}
    {e e' : Formula} (h : Formula.parse declared text = .ok e)
    (hfinite : ∀ v ∈ e.literals, v.isFinite) (h' : Formula.parse declared' text' = .ok e')
    (hplain : e'.plain = e.plain) : e.written.toList.count '(' ≤ text'.toList.count '(' := by
  rw [count_written h hfinite, ← e.words_plain, ← hplain, e'.words_plain]
  exact openingWords_le_of_parse h'

/-- Every pair of brackets in the written form is needed. Without it the text is no longer read
as the same formula, even up to places and to products without a token. This holds for any
opening bracket with any closing bracket behind it, and so for partners. -/
theorem written_needs_brackets (declared : List String) (text : String) (e : Formula)
    (hparse : Formula.parse declared text = .ok e) (hfinite : ∀ v ∈ e.literals, v.isFinite)
    (before inside behind : List Char)
    (hwritten : e.written.toList = before ++ '(' :: (inside ++ ')' :: behind)) (e' : Formula)
    (hparse' : Formula.parse declared (String.ofList (before ++ (inside ++ behind))) = .ok e') :
    e'.plain ≠ e.plain := by
  intro hplain
  have hle := count_written_le hparse hfinite hparse' hplain
  have hcount : e.written.toList.count '(' =
      (before ++ (inside ++ behind)).count '(' + 1 := by
    simp [hwritten, Nat.add_assoc]
  rw [String.toList_ofList, hcount] at hle
  exact absurd hle (Nat.not_succ_le_self _)

/-- Without brackets a product would be taken for the left operand of a difference. -/
theorem written_needs_brackets_difference :
    ∃ e e', Formula.parse [] "2(x-y)" = .ok e ∧ e.written = "2*(x-y)" ∧
      Formula.parse [] "2*x-y" = .ok e' ∧ e'.plain ≠ e.plain := by
  have hparse : (Formula.parse [] "2(x-y)").toOption =
      some (.binary (.number 2.0 ⟨0, 1⟩) ⟨.multiply, true, ⟨1, 1⟩⟩ (.binary
        (.symbol ⟨"x", ⟨2, 3⟩⟩) ⟨.subtract, false, ⟨3, 4⟩⟩ (.symbol ⟨"y", ⟨4, 5⟩⟩) ⟨2, 5⟩)
        ⟨0, 5⟩) := by decide +kernel
  have hparse' : (Formula.parse [] "2*x-y").isOk := by decide +kernel
  cases hresult : Formula.parse [] "2(x-y)" with
  | error fault => exact nomatch hresult ▸ hparse
  | ok e =>
      cases hresult' : Formula.parse [] "2*x-y" with
      | error fault => exact nomatch hresult' ▸ hparse'
      | ok e' =>
          rw [hresult] at hparse
          obtain rfl := Option.some.inj hparse
          have hwritten : Formula.written (.binary (.number 2.0 ⟨0, 1⟩) ⟨.multiply, true, ⟨1, 1⟩⟩
              (.binary (.symbol ⟨"x", ⟨2, 3⟩⟩) ⟨.subtract, false, ⟨3, 4⟩⟩
                (.symbol ⟨"y", ⟨4, 5⟩⟩) ⟨2, 5⟩) ⟨0, 5⟩) = "2*(x-y)" := by
            decide +kernel
          refine ⟨_, e', rfl, hwritten, rfl, ?_⟩
          refine written_needs_brackets [] "2(x-y)" _ hresult (fun v hv => ?_)
            ['2', '*'] ['x', '-', 'y'] [] (by rw [hwritten]; rfl) e' hresult'
          obtain rfl : v = 2.0 := by simpa [Formula.literals] using hv
          decide +kernel

end FormulaGrading
