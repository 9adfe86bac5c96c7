import FormulaGrading.Proofs.Scanning.Breaks
import Mathlib

/-!
Words: the kinds and texts of tokens without their places. A row of words that keep apart,
with no blanks between them, is scanned as these very words.
-/

namespace FormulaGrading

/-- What a token is, wherever it stands. -/
structure Word where
  kind : TokenClass
  lexeme : String
  deriving DecidableEq, Repr

def Token.word (t : Token) : Word :=
  ⟨t.kind, t.lexeme⟩

@[simp] theorem Token.kind_word (t : Token) : t.word.kind = t.kind := rfl

@[simp] theorem Token.lexeme_word (t : Token) : t.word.lexeme = t.lexeme := rfl

/-- The texts of numbers without exponents that begin with a digit. -/
def IsPlainNumber (cs : List Char) : Prop :=
  ∃ whole fraction, cs = whole ++ fraction ∧ whole ≠ [] ∧ (∀ c ∈ whole, c.isDigit) ∧
    Token.IsFraction fraction

/-- The words that are scanned as what they are. -/
inductive Word.Lexical : Word → Prop where
  | symbol {kind : TokenClass} (c : Char) (h : Token.symbolKind? c = some kind) :
      Lexical ⟨kind, String.singleton c⟩
  | name {lexeme : String} (h : Token.IsName lexeme.toList) : Lexical ⟨.name, lexeme⟩
  | number {lexeme : String} (h : IsPlainNumber lexeme.toList) : Lexical ⟨.number, lexeme⟩

/-- Whether the end of a word shows whatever follows. -/
def TokenClass.isSymbol : TokenClass → Bool
  | .name | .number => false
  | _ => true

/-- Whether two words in a row are not scanned as one. -/
def Word.Apart (w w' : Word) : Prop :=
  w.kind.isSymbol ∨ w'.kind.isSymbol

/-- The characters of a row of words. -/
def wordChars (words : List Word) : List Char :=
  words.flatMap fun w => w.lexeme.toList

@[simp] theorem wordChars_nil : wordChars [] = [] := rfl

@[simp] theorem wordChars_cons (w : Word) (words : List Word) :
    wordChars (w :: words) = w.lexeme.toList ++ wordChars words := by
  simp [wordChars]

@[simp] theorem wordChars_append (words words' : List Word) :
    wordChars (words ++ words') = wordChars words ++ wordChars words' := by
  simp [wordChars]

namespace Token

/-- What a word may be followed by: nothing, or a symbol. -/
def SymbolNext (rest : List Char) : Prop :=
  ∀ c ∈ rest.head?, (symbolKind? c).isSome

theorem SymbolNext.breaks {rest : List Char} (h : SymbolNext rest) : Breaks rest := by
  intro c hc
  obtain ⟨kind, hkind⟩ := Option.isSome_iff_exists.1 (h c hc)
  exact not_of_symbolKind? hkind

/-- A word is the longest token in front of what keeps apart from it. -/
theorem longest?_of_lexical {w : Word} (hw : w.Lexical) {rest : List Char}
    (hrest : w.kind.isSymbol ∨ SymbolNext rest) :
    longest? (w.lexeme.toList ++ rest) = some (w.kind, w.lexeme.toList) := by
  cases hw with
  | symbol c h => simpa using longest?_symbol h rest
  | @name lexeme h =>
      obtain ⟨letters, digits, hlexeme, hsome, hletters, hdigits⟩ := h
      have hnext : SymbolNext rest := hrest.resolve_left Bool.false_ne_true
      have hrun := nameRun_append hnext.breaks hletters hdigits
      obtain ⟨c, cs, rfl⟩ := List.exists_cons_of_ne_nil hsome
      have hc : c.isAlpha := hletters c List.mem_cons_self
      simp only [hlexeme, List.cons_append, List.append_assoc] at hrun ⊢
      rw [longest?_name hc, hrun]
  | @number lexeme h =>
      obtain ⟨whole, fraction, hlexeme, hsome, hwhole, hfraction⟩ := h
      have hnext : SymbolNext rest := hrest.resolve_left Bool.false_ne_true
      have hrun := numberRun_append hnext.breaks hwhole hfraction .none (.inl hsome)
      obtain ⟨c, cs, rfl⟩ := List.exists_cons_of_ne_nil hsome
      have hc : c.isDigit := hwhole c List.mem_cons_self
      simp only [hlexeme, List.cons_append, List.append_assoc, List.append_nil] at hrun ⊢
      rw [longest?_number (.inl hc) (hrun ▸ List.cons_ne_nil _ _), hrun]

/-- The first character of a word tells whether the word is a symbol. -/
theorem exists_cons_of_lexical {w : Word} (hw : w.Lexical) :
    ∃ c cs, w.lexeme.toList = c :: cs ∧ (w.kind.isSymbol → (symbolKind? c).isSome) := by
  cases hw with
  | symbol c h => exact ⟨c, [], by simp, fun _ => by simp [h]⟩
  | @name lexeme h =>
      obtain ⟨letters, digits, hlexeme, hsome, -, -⟩ := h
      obtain ⟨c, cs, rfl⟩ := List.exists_cons_of_ne_nil hsome
      exact ⟨c, cs ++ digits, hlexeme, by simp [TokenClass.isSymbol]⟩
  | @number lexeme h =>
      obtain ⟨whole, fraction, hlexeme, hsome, -, -⟩ := h
      obtain ⟨c, cs, rfl⟩ := List.exists_cons_of_ne_nil hsome
      exact ⟨c, cs ++ fraction, hlexeme, by simp [TokenClass.isSymbol]⟩

/-- Words that keep apart are scanned one by one. -/
theorem scanFrom_wordChars {words : List Word} (hlexical : ∀ w ∈ words, w.Lexical)
    (happart : words.IsChain Word.Apart) (offset : Nat) :
    ∃ tokens, scanFrom 0 offset (wordChars words) = .ok tokens ∧
      tokens.map Token.word = words := by
  induction words generalizing offset with
  | nil => exact ⟨[], rfl, rfl⟩
  | cons w words ih =>
      have hw : w.Lexical := hlexical w List.mem_cons_self
      have hwords : ∀ w' ∈ words, w'.Lexical := fun w' hw' =>
        hlexical w' (List.mem_cons_of_mem w hw')
      -- nothing of the next word is taken into this one
      have hnext : w.kind.isSymbol ∨ SymbolNext (wordChars words) := by
        cases words with
        | nil => exact .inr (by simp [SymbolNext])
        | cons w' words =>
            obtain ⟨c, cs, hlexeme, hsymbol⟩ :=
              exists_cons_of_lexical (hwords w' List.mem_cons_self)
            refine (List.isChain_cons_cons.1 happart).1.imp_right fun hw' => ?_
            simpa [SymbolNext, hlexeme] using hsymbol hw'
      have hlongest := longest?_of_lexical hw hnext
      obtain ⟨tokens, hscan, hmap⟩ := ih hwords happart.tail
        (offset + byteLength w.lexeme.toList)
      refine ⟨Token.placed offset w.kind w.lexeme.toList :: tokens, ?_, ?_⟩
      · rw [wordChars_cons, scanFrom_token hlongest, hscan]
        rfl
      · simp [Token.word, Token.placed, hmap]

end Token

end FormulaGrading
