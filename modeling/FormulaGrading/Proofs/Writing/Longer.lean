import FormulaGrading.Proofs.Evaluation
import FormulaGrading.Proofs.Parsing.Whole
import FormulaGrading.Proofs.Walking
import FormulaGrading.Proofs.Writing.RoundTrip
import Mathlib.Data.List.Induction

/-!
How much longer than a text the written form can be. It has fewer than twice as many words
as the text has tokens, and no smaller bound will do: ones in a row are read as their
product, which is written with a token for each operation.
-/

namespace FormulaGrading

namespace Formula

/-- The number of words of an operand of a layer, with brackets if it is looser. -/
def operandLength (p : Precedence) (e : Formula) : Nat :=
  (bracketedWordsIf (e.precedence.looser p) e.words).length

theorem operandLength_le (p : Precedence) (e : Formula) :
    e.operandLength p ≤ e.words.length + 2 := by
  unfold operandLength bracketedWordsIf
  split <;> simp

theorem operandLength_of_le {p : Precedence} {e : Formula}
    (h : p.rank ≤ e.precedence.rank) : e.operandLength p = e.words.length :=
  congrArg List.length (operandWords_of_le h)

theorem operandLength_mono {p q : Precedence} (hle : p.rank ≤ q.rank) (e : Formula) :
    e.operandLength p ≤ e.operandLength q :=
  (operandWords_sublist hle e).length_le

theorem operandLength_combine (l r : Formula) (op : OperatorMark) :
    (l.combine op r).operandLength op.precedence =
      l.operandLength op.operation.leftOperand + 1 +
        r.operandLength op.operation.rightOperand := by
  have hprecedence : (l.combine op r).precedence = op.precedence := rfl
  rw [operandLength_of_le (by rw [hprecedence]), words_combine, List.length_append,
    List.length_cons, Nat.add_right_comm, Nat.add_assoc]
  rfl

theorem operandLength_signed (mark : SignMark) (e : Formula) (span : Span) :
    (Formula.signed mark e span).operandLength .sign = e.operandLength .sign + 1 := rfl

theorem operandLength_call (function : Symbol) (e : Formula) (brackets span : Span) :
    (Formula.call function e brackets span).operandLength .atom = e.words.length + 3 := by
  show (_ :: _ :: (e.words ++ [_])).length = _
  rw [List.length_cons, List.length_cons, List.length_append]
  rfl

end Formula

/-- A formula is written with fewer than twice as many words as it was read from tokens. -/
theorem Derives.operandLength_lt {declared : List String} {p : Precedence}
    {ts rest : List Token} {e : Formula} (h : Derives declared p ts e rest) :
    e.operandLength p + 2 * rest.length < 2 * ts.length := by
  induction h with
  | @loosen _ _ _ _ e hle _ ih =>
      have := e.operandLength_mono hle
      omega
  | @binary op ts ts' rest t l r _ _ _ ihl ihr =>
      have hwords : (l.combine ⟨op, false, t.span⟩ r).operandLength op.precedence =
        l.operandLength op.leftOperand + 1 + r.operandLength op.rightOperand :=
          Formula.operandLength_combine l r ⟨op, false, t.span⟩
      rw [List.length_cons] at ihl
      omega
  | @adjacent ts _ ts₂ rest last first l r _ _ _ ihl ihr =>
      -- the token that is missing between the operands makes up for the one that is written
      have hwords : (l.combine ⟨.multiply, true, last.span.gap first.span⟩ r).operandLength
          .product = l.operandLength .product + 1 + r.operandLength .sign :=
        Formula.operandLength_combine l r _
      have := r.operandLength_mono (p := .sign) (q := .power) (by decide)
      omega
  | signed _ _ ih =>
      rw [Formula.operandLength_signed, List.length_cons]
      omega
  | number | symbol =>
      show 1 + _ < _
      rw [List.length_cons]
      omega
  | @call _ _ _ _ _ e _ _ _ _ _ ih =>
      rw [Formula.operandLength_of_le (Nat.zero_le _), List.length_cons] at ih
      rw [Formula.operandLength_call, List.length_cons, List.length_cons]
      omega
  | @group _ _ _ _ e _ _ _ ih =>
      have := e.operandLength_le .atom
      rw [Formula.operandLength_of_le (Nat.zero_le _), List.length_cons] at ih
      rw [List.length_cons]
      omega

/-- The same for a whole text. -/
theorem length_words_lt {declared : List String} {text : String} {tokens : List Token}
    {e : Formula} (hparse : Formula.parse declared text = .ok e)
    (hscan : Token.scan text = .ok tokens) : e.words.length < 2 * tokens.length := by
  obtain ⟨tokens', hscan', -, -, hwithin⟩ := exists_within_of_parse hparse
  obtain rfl := Except.ok.inj (hscan.symm.trans hscan')
  have hlength := hwithin.derives.operandLength_lt
  rwa [Formula.operandLength_of_le (Nat.zero_le _)] at hlength

/-- Ones with blanks behind them. -/
def onesApart : Nat → List Char
  | 0 => []
  | n + 1 => '1' :: ' ' :: onesApart n

/-- Whether a token is the number one. -/
def IsOne (t : Token) : Prop :=
  t.kind = .number ∧ t.lexeme = "1"

/-- Every one of them is a token. -/
theorem scanFrom_onesApart (n offset : Nat) :
    ∃ tokens, Token.scanFrom 0 offset (onesApart n) = .ok tokens ∧ tokens.length = n ∧
      ∀ t ∈ tokens, IsOne t := by
  induction n generalizing offset with
  | zero => exact ⟨[], rfl, rfl, by simp⟩
  | succ n ih =>
      obtain ⟨tokens, hscan, hlength, hones⟩ := ih (offset + 2)
      have hlongest : Token.longest? ('1' :: ' ' :: onesApart n) = some (.number, ['1']) := rfl
      have hskipped : Token.isSkipped '1' = false := rfl
      have hrest : Token.scanFrom (['1'].length - 1) (offset + '1'.utf8Size)
          (' ' :: onesApart n) = .ok tokens := hscan
      refine ⟨⟨.number, "1", ⟨offset, offset + 1⟩⟩ :: tokens, ?_, by rw [List.length_cons, hlength],
        List.forall_mem_cons.2 ⟨⟨rfl, rfl⟩, hones⟩⟩
      rw [onesApart, Token.scanFrom, hlongest]
      simp only [hskipped, hrest]
      rfl

/-- A product of ones: what it is worth, and how many words its written form has. -/
structure IsProductOfOnes (count : Nat) (e : Formula) : Prop where
  value : ∀ b, e.value b = .ok 1.0
  closed : e.nodes.filterMap Formula.freeSymbol? = []
  literals : ∀ v ∈ e.literals, v = 1.0
  precedence : Precedence.product.rank ≤ e.precedence.rank
  words : e.words.length + 1 = 2 * count

theorem finiteAt_one (span : Span) : finiteAt span 1.0 = .ok 1.0 :=
  if_pos (by decide +kernel)

theorem isProductOfOnes_one (span : Span) : IsProductOfOnes 1 (.number 1.0 span) where
  value _ := finiteAt_one span
  closed := rfl
  literals _ := List.mem_singleton.1
  precedence := of_decide_eq_true rfl
  words := rfl

theorem IsProductOfOnes.combine {count : Nat} {e : Formula} (h : IsProductOfOnes count e)
    (gap span : Span) :
    IsProductOfOnes (count + 1) (e.combine ⟨.multiply, true, gap⟩ (.number 1.0 span)) where
  value b := by
    refine Formula.value_binary_eq_ok_iff.2 ⟨1.0, 1.0, h.value b, finiteAt_one span, ?_⟩
    show finiteAt _ (1.0 * 1.0) = .ok 1.0
    rw [show (1.0 * 1.0 : Float) = 1.0 by decide +kernel]
    exact finiteAt_one _
  closed := by
    rw [Formula.combine, Formula.nodes, List.filterMap_append, List.filterMap_append, h.closed]
    rfl
  literals := List.forall_mem_append.2 ⟨h.literals, fun _ => List.mem_singleton.1⟩
  precedence := Nat.le_refl _
  words := by
    have hleft : OperatorMark.bracketsLeft ⟨.multiply, true, gap⟩ e = false := by
      rw [bracketsLeft_eq]
      exact looser_eq_false_iff.2 h.precedence
    have hright : OperatorMark.bracketsRight ⟨.multiply, true, gap⟩ (.number 1.0 span) = false :=
      rfl
    rw [Formula.combine, Formula.words, hleft, hright, List.length_append]
    show e.words.length + 2 + 1 = 2 * (count + 1)
    rw [Nat.mul_succ, ← h.words]

/-- Whatever the limits, a row of ones derives their product. -/
theorem exists_product_of_ones (first later : Nat) {tokens : List Token} (hsome : tokens ≠ [])
    (hones : ∀ t ∈ tokens, IsOne t) (rest : List Token) :
    ∃ e, DerivesWithin [] first (later + 1) .product (tokens ++ rest) e rest ∧
      IsProductOfOnes tokens.length e := by
  have hvalue : Decimal.readUnsigned? "1".toList = some 1.0 := by decide +kernel
  have hone {t : Token} (ht : IsOne t) (first later : Nat) (rest : List Token) :
      DerivesWithin [] first later .atom (t :: rest) (.number 1.0 t.span) rest :=
    .number ht.1 (by rw [ht.2, hvalue])
  induction tokens using List.reverseRecOn generalizing rest with
  | nil => exact absurd rfl hsome
  | append_singleton tokens t ih =>
      rw [List.forall_mem_append, List.forall_mem_singleton] at hones
      by_cases hnil : tokens = []
      · subst hnil
        exact ⟨_, .loosen (by decide) (hone hones.2 _ _ _), isProductOfOnes_one _⟩
      · obtain ⟨e, hwithin, hproduct⟩ := ih hnil hones.1 (t :: rest)
        have hsplit : tokens ++ t :: rest =
            tokens.dropLast ++ tokens.getLast hnil :: t :: rest := by
          rw [List.append_cons tokens.dropLast, List.dropLast_append_getLast]
        rw [List.append_assoc, List.length_append]
        exact ⟨_, .adjacent hsplit hwithin (.loosen (by decide) (hone hones.2 _ _ _)),
          hproduct.combine _ _⟩

/-- As many ones as there may be tokens are read as their product. -/
theorem parse_onesApart {n : Nat} (hsome : n ≠ 0) (hle : n ≤ tokenLimit) :
    ∃ e, Formula.parse [] (String.ofList (onesApart n)) = .ok e ∧ IsProductOfOnes n e := by
  obtain ⟨tokens, hscan, rfl, hones⟩ := scanFrom_onesApart n 0
  replace hscan : Token.scan (String.ofList (onesApart tokens.length)) = .ok tokens := by
    rw [Token.scan, String.toList_ofList, hscan]
  obtain ⟨e, hwithin, hproduct⟩ := exists_product_of_ones nestingLimit nestingLimit
    (List.length_pos_iff.1 (Nat.pos_of_ne_zero hsome)) hones []
  rw [List.append_nil] at hwithin
  have hbalanced : Balanced tokens :=
    balancedAfter_zero.1 (hwithin.derives.balancedAfter_iff.2 (balancedAfter_nil.2 rfl))
  exact ⟨e, (parse_eq_ok_iff hscan hle hbalanced).2 (.loosen (Nat.zero_le _) hwithin), hproduct⟩

end FormulaGrading
