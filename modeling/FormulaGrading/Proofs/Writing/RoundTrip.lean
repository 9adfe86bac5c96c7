import FormulaGrading.Proofs.Parsing.Whole
import FormulaGrading.Proofs.Writing.Numbers
import FormulaGrading.Proofs.Writing.Written

/-!
Reading a written formula back. The written form derives the same tree, but for places and
for products that had no token. It does so within the descents that were enough for the
text the formula was read from: brackets are only written where that text had some.
-/

namespace FormulaGrading

/-- A formula without the places of its parts, and with every product written out. -/
def Formula.plain : Formula → Formula
  | .number value _ => .number value ⟨0, 0⟩
  | .symbol s => .symbol ⟨s.name, ⟨0, 0⟩⟩
  | .signed mark operand _ => .signed ⟨mark.sign, ⟨0, 0⟩⟩ operand.plain ⟨0, 0⟩
  | .binary lhs op rhs _ =>
      .binary lhs.plain ⟨op.operation, false, ⟨0, 0⟩⟩ rhs.plain ⟨0, 0⟩
  | .call function argument .. =>
      .call ⟨function.name, ⟨0, 0⟩⟩ argument.plain ⟨0, 0⟩ ⟨0, 0⟩

/-- A left operand is written in brackets exactly if its layer is looser than that of left
operands. -/
theorem bracketsLeft_eq (op : OperatorMark) (l : Formula) :
    op.bracketsLeft l = l.precedence.looser op.operation.leftOperand := by
  simp only [OperatorMark.bracketsLeft, OperatorMark.precedence, OperatorMark.groupsRight]
  cases op.operation <;> cases l.precedence <;> decide

/-- The same for right operands, since no layer of right operands is tighter than that of
signs. -/
theorem bracketsRight_eq (op : OperatorMark) (r : Formula) :
    op.bracketsRight r = r.precedence.looser op.operation.rightOperand := by
  simp only [OperatorMark.bracketsRight, OperatorMark.precedence, OperatorMark.groupsRight]
  cases r with
  | binary _ op' _ _ =>
      show (!false && _) = op'.operation.precedence.looser _
      simp only [Formula.precedence, OperatorMark.precedence]
      cases op.operation <;> cases op'.operation <;> decide
  | _ =>
      simp only [Formula.isSigned, Formula.precedence, Sign.precedence]
      cases op.operation <;> decide

namespace Formula

/-- The words of an operand of a layer, with brackets if it is looser. -/
def operandWords (p : Precedence) (e : Formula) : List Word :=
  bracketedWordsIf (e.precedence.looser p) e.words

theorem operandWords_of_le {p : Precedence} {e : Formula} (h : p.rank ≤ e.precedence.rank) :
    e.operandWords p = e.words := by
  rw [operandWords, looser_eq_false_iff.2 h]
  rfl

theorem operandWords_of_lt {p : Precedence} {e : Formula} (h : e.precedence.rank < p.rank) :
    e.operandWords p = ⟨.openBracket, "("⟩ :: (e.words ++ [⟨.closeBracket, ")"⟩]) := by
  have hlooser : e.precedence.looser p = true := decide_eq_true h
  rw [operandWords, hlooser]
  rfl

theorem words_sublist_operandWords (p : Precedence) (e : Formula) :
    e.words.Sublist (e.operandWords p) := by
  by_cases h : p.rank ≤ e.precedence.rank
  · rw [operandWords_of_le h]
  · rw [operandWords_of_lt (Nat.lt_of_not_le h)]
    exact (List.sublist_append_left _ _).cons _

/-- Tighter layers only ask for more brackets. -/
theorem operandWords_sublist {p q : Precedence} (hle : p.rank ≤ q.rank) (e : Formula) :
    (e.operandWords p).Sublist (e.operandWords q) := by
  by_cases h : p.rank ≤ e.precedence.rank
  · rw [operandWords_of_le h]
    exact words_sublist_operandWords q e
  · have hlt := Nat.lt_of_not_le h
    rw [operandWords_of_lt hlt, operandWords_of_lt (Nat.lt_of_lt_of_le hlt hle)]

theorem words_combine (l r : Formula) (op : OperatorMark) :
    (l.combine op r).words = l.operandWords op.operation.leftOperand ++
      op.operation.word :: r.operandWords op.operation.rightOperand := by
  rw [combine, words, bracketsLeft_eq, bracketsRight_eq, operandWords, operandWords]

end Formula

/-- Whether nothing follows that a name would multiply. -/
def NoAtomNext (rest : List Token) : Prop :=
  (firstKind? rest).any TokenClass.opensAtom = false

/-- Tokens with the words of a formula derive it up to places and products without a
token, whatever follows that begins no atom. -/
def WrittenWithin (declared : List String) (first later : Nat) (p : Precedence)
    (words : List Word) (e : Formula) : Prop :=
  ∀ ts rest, ts.map Token.word = words → NoAtomNext rest →
    ∃ e', DerivesWithin declared first later p (ts ++ rest) e' rest ∧ e'.plain = e.plain

section

variable {declared : List String} {first later n : Nat} {p q : Precedence}
  {words words' : List Word} {e l r : Formula}

theorem WrittenWithin.mono {first' later' : Nat}
    (h : WrittenWithin declared first later p words e) (hfirst : first ≤ first')
    (hlater : later ≤ later') : WrittenWithin declared first' later' p words e := by
  intro ts rest hts hrest
  obtain ⟨e', hwithin, hplain⟩ := h ts rest hts hrest
  exact ⟨e', hwithin.mono hfirst hlater, hplain⟩

theorem WrittenWithin.loosen (h : WrittenWithin declared first later q words e)
    (hle : p.rank ≤ q.rank) : WrittenWithin declared first later p words e := by
  intro ts rest hts hrest
  obtain ⟨e', hwithin, hplain⟩ := h ts rest hts hrest
  exact ⟨e', .loosen hle hwithin, hplain⟩

theorem WrittenWithin.brackets (h : WrittenWithin declared n (n + 1) p words e) :
    WrittenWithin declared (n + 1) later .atom (bracketedWordsIf true words) e := by
  intro ts rest hts hrest
  simp only [bracketedWordsIf, if_true] at hts
  obtain ⟨opening, behind, rfl, hopening, hbehind⟩ := List.map_eq_cons_iff.1 hts
  obtain ⟨inner, closings, rfl, hinner, hclosings⟩ := List.map_eq_append_iff.1 hbehind
  obtain ⟨closing, rfl, hclosing⟩ := List.map_eq_singleton_iff.1 hclosings
  have hopen : opening.kind = .openBracket := congrArg Word.kind hopening
  have hclose : closing.kind = .closeBracket := congrArg Word.kind hclosing
  have hnext : NoAtomNext (closing :: rest) := by
    simp [NoAtomNext, hclose, TokenClass.opensAtom]
  obtain ⟨e', hwithin, hplain⟩ := h inner (closing :: rest) hinner hnext
  refine ⟨e', ?_, hplain⟩
  rw [List.cons_append, List.append_assoc]
  exact .group hopen hclose (.loosen (Nat.zero_le _) hwithin)

/-- A formula as an operand of a layer, with brackets if it is looser. -/
def OperandWithin (declared : List String) (first later : Nat) (p : Precedence)
    (e : Formula) : Prop :=
  WrittenWithin declared first later p
    (bracketedWordsIf (e.precedence.looser p) e.words) e

theorem writtenWithin_number {value : Float} {span : Span}
    (hvalue : Decimal.readUnsigned? (Decimal.text value).toList = some value) :
    WrittenWithin declared first later .atom (Formula.number value span).words
      (.number value span) := by
  intro ts rest hts _
  obtain ⟨t, rfl, hword⟩ := List.map_eq_singleton_iff.1 hts
  have hkind : t.kind = .number := congrArg Word.kind hword
  have hlexeme : t.lexeme = Decimal.text value := congrArg Word.lexeme hword
  exact ⟨.number value t.span, .number hkind (hlexeme ▸ hvalue), rfl⟩

theorem writtenWithin_symbol {s : Symbol} (hname : isFunctionName s.name = false) :
    WrittenWithin declared first later .atom (Formula.symbol s).words (.symbol s) := by
  intro ts rest hts hrest
  obtain ⟨t, rfl, hword⟩ := List.map_eq_singleton_iff.1 hts
  have hkind : t.kind = .name := congrArg Word.kind hword
  have hlexeme : t.lexeme = s.name := congrArg Word.lexeme hword
  refine ⟨.symbol ⟨t.lexeme, t.span⟩, .symbol hkind (hlexeme ▸ hname) fun hopen => ?_, ?_⟩
  · have hnone : (firstKind? rest).any TokenClass.opensAtom = false := hrest
    rw [show firstKind? rest = some .openBracket from hopen] at hnone
    exact nomatch hnone
  · simp [Formula.plain, hlexeme]

theorem writtenWithin_signed {mark : SignMark} {span : Span}
    (h : OperandWithin declared n (n + 1) .sign e) :
    WrittenWithin declared (n + 1) later .sign (Formula.signed mark e span).words
      (.signed mark e span) := by
  intro ts rest hts hrest
  obtain ⟨t, operand, rfl, hword, hoperand⟩ := List.map_eq_cons_iff.1 hts
  have hsign : t.kind.sign? = some mark.sign := by
    have hkind : t.kind = mark.sign.word.kind := congrArg Word.kind hword
    rw [hkind]
    cases mark.sign <;> rfl
  obtain ⟨e', hwithin, hplain⟩ := h operand rest hoperand hrest
  exact ⟨_, .signed hsign hwithin, by simp [Formula.plain, hplain]⟩

theorem writtenWithin_call {function : Symbol} {brackets span : Span}
    (hname : isFunctionName function.name) (h : WrittenWithin declared n (n + 1) p e.words e) :
    WrittenWithin declared (n + 2) later .atom (Formula.call function e brackets span).words
      (.call function e brackets span) := by
  intro ts rest hts hrest
  obtain ⟨f, behind, rfl, hf, hbehind⟩ := List.map_eq_cons_iff.1 hts
  obtain ⟨opening, inside, rfl, hopening, hinside⟩ := List.map_eq_cons_iff.1 hbehind
  obtain ⟨inner, closings, rfl, hinner, hclosings⟩ := List.map_eq_append_iff.1 hinside
  obtain ⟨closing, rfl, hclosing⟩ := List.map_eq_singleton_iff.1 hclosings
  have hkind : f.kind = .name := congrArg Word.kind hf
  have hlexeme : f.lexeme = function.name := congrArg Word.lexeme hf
  have hopen : opening.kind = .openBracket := congrArg Word.kind hopening
  have hclose : closing.kind = .closeBracket := congrArg Word.kind hclosing
  have hnext : NoAtomNext (closing :: rest) := by
    simp [NoAtomNext, hclose, TokenClass.opensAtom]
  obtain ⟨e', hwithin, hplain⟩ := h inner (closing :: rest) hinner hnext
  refine ⟨.call ⟨f.lexeme, f.span⟩ e' (opening.span.join closing.span)
    (f.span.join closing.span), ?_, ?_⟩
  · rw [List.cons_append, List.cons_append, List.append_assoc]
    exact .call hkind (hlexeme ▸ hname) hopen hclose (.loosen (Nat.zero_le _) hwithin)
  · simp [Formula.plain, hplain, hlexeme]

/-- An operation between written operands, with a token even if it had none. -/
theorem writtenWithin_combine {op : OperatorMark}
    (hl : OperandWithin declared first (n + 1) op.operation.leftOperand l)
    (hr : OperandWithin declared n n op.operation.rightOperand r) :
    WrittenWithin declared first (n + 1) op.precedence (l.combine op r).words
      (l.combine op r) := by
  intro ts rest hts hrest
  rw [Formula.words_combine] at hts
  obtain ⟨left, behind, rfl, hleft, hbehind⟩ := List.map_eq_append_iff.1 hts
  obtain ⟨t, right, rfl, hword, hright⟩ := List.map_eq_cons_iff.1 hbehind
  have hkind : t.kind = op.operation.kind := congrArg Word.kind hword
  have hop : t.kind.operation? = some op.operation := by
    rw [hkind]
    cases op.operation <;> rfl
  have hnext : NoAtomNext (t :: (right ++ rest)) := by
    simp only [NoAtomNext, firstKind?_cons, Option.any_some, hkind]
    cases op.operation <;> rfl
  obtain ⟨l', hwithinl, hplainl⟩ := hl left (t :: (right ++ rest)) hleft hnext
  obtain ⟨r', hwithinr, hplainr⟩ := hr right rest hright hrest
  refine ⟨l'.combine ⟨op.operation, false, t.span⟩ r', ?_, ?_⟩
  · rw [List.append_assoc, List.cons_append]
    exact .binary hop hwithinl hwithinr
  · simp [Formula.combine, Formula.plain, hplainl, hplainr]

theorem operandWithin_of (h : WrittenWithin declared first later e.precedence e.words e)
    (hbrackets : e.precedence.rank < p.rank →
      ∃ n, first = n + 1 ∧ WrittenWithin declared n (n + 1) e.precedence e.words e) :
    OperandWithin declared first later p e := by
  unfold OperandWithin
  cases hlooser : e.precedence.looser p with
  | false => exact h.loosen (looser_eq_false_iff.1 hlooser)
  | true =>
      obtain ⟨n, rfl, hinner⟩ := hbrackets (of_decide_eq_true hlooser)
      exact hinner.brackets.loosen (by cases p <;> decide)

end

/-- What was read within some number of descents is written within as many. Where the layer
of the formula is looser than that of its place, there were brackets, and they cost what
they cost when they are written. -/
theorem writtenWithin_of_within {declared : List String} {first later : Nat} {p : Precedence}
    {ts rest : List Token} {e : Formula}
    (h : DerivesWithin declared first later p ts e rest) (hle : first ≤ later)
    (hnumbers : ∀ v ∈ e.literals,
      Decimal.readUnsigned? (Decimal.text v).toList = some v) :
    WrittenWithin declared first later e.precedence e.words e ∧
      (e.precedence.rank < p.rank →
        ∃ n, first = n + 1 ∧ WrittenWithin declared n (n + 1) e.precedence e.words e) := by
  induction h with
  | loosen hle' _ ih =>
      obtain ⟨hwritten, hbrackets⟩ := ih hle hnumbers
      exact ⟨hwritten, fun hlt => hbrackets (Nat.lt_of_lt_of_le hlt hle')⟩
  | @binary first later op _ _ _ t l r hop _ _ ihl ihr =>
      obtain ⟨hl, hbracketsl⟩ := ihl hle fun v hv => hnumbers v (List.mem_append_left _ hv)
      obtain ⟨hr, hbracketsr⟩ := ihr (Nat.le_refl _) fun v hv =>
        hnumbers v (List.mem_append_right _ hv)
      refine ⟨writtenWithin_combine (operandWithin_of hl hbracketsl)
        (operandWithin_of hr hbracketsr), fun hlt => absurd hlt (Nat.lt_irrefl _)⟩
  | @adjacent first later _ _ _ _ last next l r _ _ _ ihl ihr =>
      -- behind a token the right operand may be a sign, so it needs fewer brackets
      have hsign : Precedence.sign.rank < Precedence.power.rank := by decide
      obtain ⟨hl, hbracketsl⟩ := ihl hle fun v hv => hnumbers v (List.mem_append_left _ hv)
      obtain ⟨hr, hbracketsr⟩ := ihr (Nat.le_refl _) fun v hv =>
        hnumbers v (List.mem_append_right _ hv)
      refine ⟨writtenWithin_combine (operandWithin_of hl hbracketsl)
        (operandWithin_of hr fun hlt => hbracketsr (Nat.lt_trans hlt hsign)),
        fun hlt => absurd hlt (Nat.lt_irrefl _)⟩
  | @signed first later _ _ _ _ _ _ _ ih =>
      obtain ⟨hoperand, hbrackets⟩ := ih (Nat.le_succ _) hnumbers
      exact ⟨writtenWithin_signed (operandWithin_of hoperand hbrackets),
        fun hlt => absurd hlt (Nat.lt_irrefl _)⟩
  | number _ _ =>
      exact ⟨writtenWithin_number (hnumbers _ List.mem_cons_self),
        fun hlt => absurd hlt (Nat.lt_irrefl _)⟩
  | symbol _ hname _ =>
      exact ⟨writtenWithin_symbol hname, fun hlt => absurd hlt (Nat.lt_irrefl _)⟩
  | call _ hname _ _ _ ih =>
      exact ⟨writtenWithin_call hname (ih (Nat.le_succ _) hnumbers).1,
        fun hlt => absurd hlt (Nat.lt_irrefl _)⟩
  | @group first later _ _ _ _ _ _ _ _ ih =>
      have hinner := (ih (Nat.le_succ _) hnumbers).1
      exact ⟨hinner.mono (Nat.le_succ _) hle, fun _ => ⟨first, rfl, hinner⟩⟩

theorem Derives.readUnsigned?_of_mem_literals {declared : List String} {p : Precedence}
    {ts rest : List Token} {e : Formula} (h : Derives declared p ts e rest) {v : Float}
    (hv : v ∈ e.literals) : ∃ cs, Decimal.readUnsigned? cs = some v := by
  induction h with
  | loosen _ _ ih => exact ih hv
  | binary _ _ _ ihl ihr | adjacent _ _ _ ihl ihr =>
      rcases List.mem_append.1 hv with hv | hv
      · exact ihl hv
      · exact ihr hv
  | signed _ _ ih | call _ _ _ _ _ ih | group _ _ _ ih => exact ih hv
  | @number t _ value _ hvalue =>
      obtain rfl : v = value := List.mem_singleton.1 hv
      exact ⟨_, hvalue⟩
  | symbol => exact nomatch hv

/-- A formula is read back from its written form as it was, but for places and for products
without a token, if its numbers are finite. -/
theorem parse_written (declared : List String) (text : String) (e : Formula)
    (hparse : Formula.parse declared text = .ok e)
    (hfinite : ∀ v ∈ e.literals, v.isFinite) :
    ∃ tokens, Token.scan e.written = .ok tokens ∧
      (tokens.length ≤ 1024 →
        ∃ e', Formula.parse declared e.written = .ok e' ∧ e'.plain = e.plain) := by
  obtain ⟨tokens, hscan, -, -, hwithin⟩ := exists_within_of_parse hparse
  have htext (v : Float) (hv : v ∈ e.literals) : IsPlainNumber (Decimal.text v).toList ∧
      Decimal.readUnsigned? (Decimal.text v).toList = some v := by
    obtain ⟨cs, hread⟩ := hwithin.derives.readUnsigned?_of_mem_literals hv
    exact Decimal.text_read (hfinite v hv) (Decimal.isNegative_of_readUnsigned? hread)
  have hlexical : ∀ w ∈ e.words, w.Lexical :=
    hwithin.derives.lexical_words (fun t ht => Token.isName_of_mem_scan hscan ht) fun v hv =>
      (htext v hv).1
  obtain ⟨tokens', hscan', hwords⟩ := Token.scanFrom_wordChars hlexical e.isChain_words 0
  rw [← e.toList_written] at hscan'
  refine ⟨tokens', hscan', fun hlength => ?_⟩
  obtain ⟨hwritten, -⟩ := writtenWithin_of_within hwithin (Nat.le_succ _) fun v hv => (htext v hv).2
  obtain ⟨e', hwithin', hplain⟩ := hwritten tokens' [] hwords rfl
  rw [List.append_nil] at hwithin'
  have hbalanced : Balanced tokens' :=
    balancedAfter_zero.1 (hwithin'.derives.balancedAfter_iff.2 (balancedAfter_nil.2 rfl))
  refine ⟨e', ?_, hplain⟩
  exact (parse_eq_ok_iff hscan' hlength hbalanced).2 (.loosen (Nat.zero_le _) hwithin')

/-- A product without a token is read back as one with a token. -/
theorem parse_written_twice_difference :
    ∃ e, Formula.parse [] "2(x-y)" = .ok e ∧ e.written = "2*(x-y)" ∧
      ∃ tokens, Token.scan e.written = .ok tokens ∧
        (tokens.length ≤ 1024 →
          ∃ e', Formula.parse [] e.written = .ok e' ∧ e'.plain = e.plain) := by
  have hparse : (Formula.parse [] "2(x-y)").toOption =
      some (.binary (.number 2.0 ⟨0, 1⟩) ⟨.multiply, true, ⟨1, 1⟩⟩ (.binary
        (.symbol ⟨"x", ⟨2, 3⟩⟩) ⟨.subtract, false, ⟨3, 4⟩⟩ (.symbol ⟨"y", ⟨4, 5⟩⟩) ⟨2, 5⟩)
        ⟨0, 5⟩) := by decide +kernel
  cases hresult : Formula.parse [] "2(x-y)" with
  | error fault => exact nomatch hresult ▸ hparse
  | ok e =>
      rw [hresult] at hparse
      obtain rfl := Option.some.inj hparse
      refine ⟨_, rfl, by decide +kernel, parse_written [] "2(x-y)" _ hresult fun v hv => ?_⟩
      obtain rfl : v = 2.0 := by simpa [Formula.literals] using hv
      decide +kernel

end FormulaGrading
