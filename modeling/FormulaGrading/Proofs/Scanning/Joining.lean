import FormulaGrading.Proofs.Parsing.Layout
import FormulaGrading.Proofs.Parsing.Moving
import FormulaGrading.Proofs.Scanning.Breaks

/-!
Texts in brackets. A closing bracket ends the token before it. So a text in brackets, with
whatever comes behind them, is scanned as the brackets with the tokens of the text between
them, moved to where the text begins.
-/

namespace FormulaGrading

namespace Token

/-! ### Scanning in parts -/

section

variable {offset stop mid : Nat} {cs rest : List Char} {tokens : List Token}

theorem Scans.append {cs' : List Char} {tokens' : List Token}
    (h : Scans offset cs tokens mid cs') (h' : Scans mid cs' tokens' stop rest) :
    Scans offset cs (tokens ++ tokens') stop rest := by
  induction h with
  | done => exact h'
  | skip hskipped _ ih => exact .skip hskipped (ih h')
  | token hlongest _ ih => exact .token hlongest (ih h')

theorem Scans.symbol {c : Char} {kind : TokenClass} (hc : symbolKind? c = some kind)
    (h : Scans (offset + 1) cs tokens stop rest) :
    Scans offset (c :: cs) (placed offset kind [c] :: tokens) stop rest := by
  have hlongest : longest? ([c] ++ cs) = some (kind, [c]) := by simp [longest?, hc]
  have hsize : byteLength [c] = 1 := utf8Size_of_isAscii (isAscii_of_symbolKind? hc)
  exact .token hlongest (by rwa [hsize])

theorem placed_add (offset d : Nat) (kind : TokenClass) (lexeme : List Char) :
    placed (offset + d) kind lexeme = (placed offset kind lexeme).moved (· + d) := by
  simp [placed, Token.moved, Span.moved, Nat.add_right_comm]

/-- The same characters further on have the same tokens further on. -/
theorem Scans.add (h : Scans offset cs tokens stop rest) (d : Nat) :
    Scans (offset + d) cs (tokens.map (Token.moved (· + d))) (stop + d) rest := by
  induction h with
  | done => exact .done
  | skip hskipped _ ih =>
      rw [Nat.add_right_comm] at ih
      exact .skip hskipped ih
  | token hlongest _ ih =>
      rw [Nat.add_right_comm] at ih
      rw [List.map_cons, ← placed_add]
      exact .token hlongest ih

/-- A closing bracket behind the characters leaves their tokens as they are. -/
theorem Scans.beforeClose (h : Scans offset cs tokens stop []) (rest : List Char) :
    Scans offset (cs ++ ')' :: rest) tokens stop (')' :: rest) := by
  generalize hnil : ([] : List Char) = left at h
  induction h with
  | done =>
      subst hnil
      exact .done
  | skip hskipped _ ih => exact .skip hskipped (ih hnil)
  | @token _ _ kind lexeme cs _ _ hlongest _ ih =>
      have hsome : lexeme ++ cs ≠ [] := List.append_ne_nil_of_left_ne_nil
        (longest?_isPrefix hlongest).1 cs
      rw [← longest?_append_end endsToken_close _ rest hsome] at hlongest
      rw [List.append_assoc] at hlongest ⊢
      exact .token hlongest (ih hnil)

/-- Tokens between brackets, of which the first is at an offset. The text between them has
the given length. -/
def bracketed (offset length : Nat) (tokens : List Token) : List Token :=
  placed offset .openBracket ['('] ::
    (tokens.map (Token.moved (· + (offset + 1))) ++
      [placed (offset + 1 + length) .closeBracket [')']])

@[simp] theorem length_bracketed (offset length : Nat) (tokens : List Token) :
    (bracketed offset length tokens).length = tokens.length + 2 := by
  simp [bracketed]

theorem Scans.bracketed (h : Scans 0 cs tokens stop []) (offset : Nat) (rest : List Char) :
    Scans offset ('(' :: (cs ++ ')' :: rest)) (bracketed offset cs.length tokens)
      (offset + cs.length + 2) rest := by
  obtain ⟨passed, hpassed, -, rfl⟩ := h.passed
  rw [List.append_nil] at hpassed
  subst hpassed
  have hinner := (h.beforeClose rest).add (offset + 1)
  simp only [Nat.zero_add, Nat.add_comm cs.length] at hinner
  have hclose : Scans (offset + 1 + cs.length) (')' :: rest)
      [placed (offset + 1 + cs.length) .closeBracket [')']] (offset + cs.length + 2) rest := by
    refine .symbol rfl ?_
    rw [show offset + 1 + cs.length + 1 = offset + cs.length + 2 by omega]
    exact .done
  exact .symbol rfl (hinner.append hclose)

end

/-- Two texts in brackets with an operation between them. -/
def joined (op : Operation) (a b : String) : String :=
  "(" ++ a ++ ")" ++ op.symbol ++ "(" ++ b ++ ")"

theorem exists_symbolKind? (op : Operation) :
    ∃ c kind, symbolKind? c = some kind ∧ kind.operation? = some op := by
  cases op with
  | add => exact ⟨'+', .add, rfl, rfl⟩
  | subtract => exact ⟨'-', .subtract, rfl, rfl⟩
  | multiply => exact ⟨'*', .multiply, rfl, rfl⟩
  | divide => exact ⟨'/', .divide, rfl, rfl⟩
  | power => exact ⟨'^', .power, rfl, rfl⟩

theorem exists_scan_joined {a b : String} {ts us : List Token} (op : Operation)
    (ha : scan a = .ok ts) (hb : scan b = .ok us) :
    ∃ t : Token, t.kind.operation? = some op ∧ t.span = ⟨a.length + 2, a.length + 3⟩ ∧
      scan (joined op a b) = .ok (bracketed 0 a.length ts ++
        t :: bracketed (a.length + 3) b.length us) := by
  obtain ⟨c, kind, hc, hop⟩ := exists_symbolKind? op
  obtain ⟨_, hscansA⟩ := scans_of_scan ha
  obtain ⟨_, hscansB⟩ := scans_of_scan hb
  have hsize : byteLength [c] = 1 := utf8Size_of_isAscii (isAscii_of_symbolKind? hc)
  have hchars : (joined op a b).toList =
      '(' :: (a.toList ++ ')' :: c :: '(' :: (b.toList ++ [')'])) := by
    simp [joined, symbol_of_symbolKind? hc hop]
  refine ⟨placed (a.length + 2) kind [c], hop, ?_, ?_⟩
  · simp only [placed, hsize]
  · rw [scan, hchars]
    have hright := (hscansB.bracketed (a.length + 3) []).symbol hc
    have hleft := hscansA.bracketed 0 (c :: '(' :: (b.toList ++ [')']))
    rw [String.length_toList] at hleft hright
    rw [Nat.zero_add] at hleft
    exact (hleft.append hright).scanFrom_eq

end Token

end FormulaGrading
