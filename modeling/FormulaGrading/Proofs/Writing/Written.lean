import FormulaGrading.Formula.Written
import FormulaGrading.Proofs.Grammar
import FormulaGrading.Proofs.Writing.Words

/-!
The words of a written formula, and that the written form is scanned as these words. The
names of a formula are those of the tokens that it was read from, and its numbers are
written without exponents.
-/

namespace FormulaGrading

/-- The kind of the token of an operation. -/
def Operation.kind : Operation → TokenClass
  | .add => .add
  | .subtract => .subtract
  | .multiply => .multiply
  | .divide => .divide
  | .power => .power

def Operation.word (op : Operation) : Word :=
  ⟨op.kind, op.symbol⟩

def Sign.word : Sign → Word
  | .plus => ⟨.add, "+"⟩
  | .minus => ⟨.subtract, "-"⟩

/-- Words with brackets around them if asked to. -/
def bracketedWordsIf (brackets : Bool) (words : List Word) : List Word :=
  if brackets then ⟨.openBracket, "("⟩ :: (words ++ [⟨.closeBracket, ")"⟩]) else words

namespace Formula

/-- The words of the written form. -/
def words : Formula → List Word
  | .number value _ => [⟨.number, Decimal.text value⟩]
  | .symbol s => [⟨.name, s.name⟩]
  | .signed mark operand _ =>
      mark.sign.word ::
        bracketedWordsIf (operand.precedence.looser mark.sign.precedence) operand.words
  | .binary lhs op rhs _ =>
      bracketedWordsIf (op.bracketsLeft lhs) lhs.words ++
        op.operation.word :: bracketedWordsIf (op.bracketsRight rhs) rhs.words
  | .call function argument .. =>
      ⟨.name, function.name⟩ :: ⟨.openBracket, "("⟩ ::
        (argument.words ++ [⟨.closeBracket, ")"⟩])

/-- The numbers of a formula, from left to right. -/
def literals : Formula → List Float
  | .number value _ => [value]
  | .symbol _ => []
  | .signed _ operand _ => operand.literals
  | .binary lhs _ rhs _ => lhs.literals ++ rhs.literals
  | .call _ argument .. => argument.literals

end Formula

theorem toList_bracketedIf {brackets : Bool} {text : String} {words : List Word}
    (h : text.toList = wordChars words) :
    (bracketedIf brackets text).toList = wordChars (bracketedWordsIf brackets words) := by
  cases brackets with
  | false => exact h
  | true => simp [bracketedIf, bracketedWordsIf, h]

/-- The written form is its words without anything in between. -/
theorem Formula.toList_written (e : Formula) : e.written.toList = wordChars e.words := by
  induction e with
  | number value _ => simp [written, words]
  | symbol s => simp [written, words]
  | signed mark operand _ ih =>
      have hsign : mark.sign.word.lexeme = mark.sign.symbol := by
        cases mark.sign <;> rfl
      simp only [written, words, String.toList_append, wordChars_cons, hsign,
        toList_bracketedIf ih]
  | binary lhs op rhs _ ihl ihr =>
      simp only [written, words, String.toList_append, wordChars_append, wordChars_cons,
        toList_bracketedIf ihl, toList_bracketedIf ihr, Operation.word, List.append_assoc]
  | call function argument _ _ ih => simp [written, words, ih]

section

variable {words words' : List Word}

theorem Operation.lexical_word (op : Operation) : op.word.Lexical := by
  cases op with
  | add => exact .symbol '+' rfl
  | subtract => exact .symbol '-' rfl
  | multiply => exact .symbol '*' rfl
  | divide => exact .symbol '/' rfl
  | power => exact .symbol '^' rfl

theorem Sign.lexical_word (sign : Sign) : sign.word.Lexical := by
  cases sign with
  | plus => exact .symbol '+' rfl
  | minus => exact .symbol '-' rfl

theorem lexical_openBracket : Word.Lexical ⟨.openBracket, "("⟩ := .symbol '(' rfl

theorem lexical_closeBracket : Word.Lexical ⟨.closeBracket, ")"⟩ := .symbol ')' rfl

theorem lexical_bracketedWordsIf {brackets : Bool} (h : ∀ w ∈ words, w.Lexical) :
    ∀ w ∈ bracketedWordsIf brackets words, w.Lexical := by
  cases brackets with
  | false => exact h
  | true =>
      intro w hw
      simp only [bracketedWordsIf, if_true, List.mem_cons, List.mem_append, List.mem_nil_iff,
        or_false] at hw
      obtain rfl | hw | rfl := hw
      · exact lexical_openBracket
      · exact h w hw
      · exact lexical_closeBracket

theorem Operation.isSymbol_word (op : Operation) : op.word.kind.isSymbol := by
  cases op <;> rfl

theorem Sign.isSymbol_word (sign : Sign) : sign.word.kind.isSymbol := by
  cases sign <;> rfl

/-- A symbol keeps apart from whatever follows it. -/
theorem isChain_cons_symbol {w : Word} (hw : w.kind.isSymbol) (h : words.IsChain Word.Apart) :
    (w :: words).IsChain Word.Apart := by
  cases words with
  | nil => exact .singleton w
  | cons w' words => exact .cons_cons (.inl hw) h

theorem isChain_append_symbol {w : Word} (hw : w.kind.isSymbol)
    (h : words.IsChain Word.Apart) (h' : words'.IsChain Word.Apart) :
    (words ++ w :: words').IsChain Word.Apart := by
  refine List.isChain_append.2 ⟨h, isChain_cons_symbol hw h', fun x _ y hy => ?_⟩
  obtain rfl : w = y := by simpa using hy
  exact .inr hw

theorem isChain_bracketedWordsIf {brackets : Bool} (h : words.IsChain Word.Apart) :
    (bracketedWordsIf brackets words).IsChain Word.Apart := by
  cases brackets with
  | false => exact h
  | true => exact isChain_cons_symbol rfl (isChain_append_symbol rfl h .nil)

end

/-- In a written formula names and numbers have symbols between them. -/
theorem Formula.isChain_words (e : Formula) : e.words.IsChain Word.Apart := by
  induction e with
  | number value _ => exact .singleton _
  | symbol s => exact .singleton _
  | signed mark operand _ ih =>
      exact isChain_cons_symbol mark.sign.isSymbol_word (isChain_bracketedWordsIf ih)
  | binary lhs op rhs _ ihl ihr =>
      exact isChain_append_symbol op.operation.isSymbol_word (isChain_bracketedWordsIf ihl)
        (isChain_bracketedWordsIf ihr)
  | call function argument _ _ ih =>
      refine .cons_cons (.inr rfl) (isChain_cons_symbol rfl ?_)
      exact isChain_append_symbol rfl ih .nil

theorem lexical_binary {l r : Formula} {op : OperatorMark} (hl : ∀ w ∈ l.words, w.Lexical)
    (hr : ∀ w ∈ r.words, w.Lexical) : ∀ w ∈ (l.combine op r).words, w.Lexical := by
  intro w hw
  simp only [Formula.combine, Formula.words, List.mem_append, List.mem_cons] at hw
  obtain hw | rfl | hw := hw
  · exact lexical_bracketedWordsIf hl w hw
  · exact op.operation.lexical_word
  · exact lexical_bracketedWordsIf hr w hw

/-- The words of a formula that was read are scanned as what they are, if its numbers are
written in the plain way. -/
theorem Derives.lexical_words {declared : List String} {p : Precedence}
    {ts rest : List Token} {e : Formula} (h : Derives declared p ts e rest)
    (hnames : ∀ t ∈ ts, t.kind = .name → Token.IsName t.lexeme.toList)
    (hnumbers : ∀ v ∈ e.literals, IsPlainNumber (Decimal.text v).toList) :
    ∀ w ∈ e.words, w.Lexical := by
  induction h with
  | loosen _ _ ih => exact ih hnames hnumbers
  | binary hop hl _ ihl ihr =>
      obtain ⟨passed, last, hts, -⟩ := hl.eq_append
      refine lexical_binary (ihl hnames fun v hv => ?_) (ihr (fun t ht => ?_) fun v hv => ?_)
      · exact hnumbers v (List.mem_append_left _ hv)
      · exact hnames t (by simp [hts, ht])
      · exact hnumbers v (List.mem_append_right _ hv)
  | adjacent _ hl _ ihl ihr =>
      obtain ⟨passed, last, hts, -⟩ := hl.eq_append
      refine lexical_binary (ihl hnames fun v hv => ?_) (ihr (fun t ht => ?_) fun v hv => ?_)
      · exact hnumbers v (List.mem_append_left _ hv)
      · apply hnames t
        rw [hts]
        exact List.mem_append_right _ (List.mem_cons_of_mem _ ht)
      · exact hnumbers v (List.mem_append_right _ hv)
  | signed hsign he ih =>
      intro w hw
      rcases List.mem_cons.1 hw with rfl | hw
      · exact Sign.lexical_word _
      · exact lexical_bracketedWordsIf
          (ih (fun t ht => hnames t (List.mem_cons_of_mem _ ht)) hnumbers) w hw
  | number hkind hvalue =>
      simpa [Formula.words] using Word.Lexical.number (hnumbers _ (by simp [Formula.literals]))
  | symbol hkind hname hgroup =>
      simpa [Formula.words] using Word.Lexical.name (hnames _ List.mem_cons_self hkind)
  | call hf _ _ _ _ ih =>
      have harg := ih (fun t ht => hnames t (by simp [ht])) hnumbers
      intro w hw
      simp only [Formula.words, List.mem_cons, List.mem_append, List.mem_nil_iff,
        or_false] at hw
      obtain rfl | rfl | hw | rfl := hw
      · exact .name (hnames _ List.mem_cons_self hf)
      · exact lexical_openBracket
      · exact harg w hw
      · exact lexical_closeBracket
  | group hopen hclose he ih =>
      exact ih (fun t ht => hnames t (List.mem_cons_of_mem _ ht)) hnumbers

end FormulaGrading
