import FormulaGrading.Token

/-!
A place in a row of tokens.
-/

namespace FormulaGrading

/-- The tokens before a place, the nearest first, and those after it, in order. -/
structure Cursor where
  before : List Token
  after : List Token
  deriving DecidableEq, Repr

namespace Cursor

/-- The place in front of all tokens. -/
def start (tokens : List Token) : Cursor :=
  ⟨[], tokens⟩

/-- All tokens, in order. -/
def tokens (c : Cursor) : List Token :=
  c.before.reverse ++ c.after

/-- The number of tokens before the place. -/
def position (c : Cursor) : Nat :=
  c.before.length

/-- The token that comes next. -/
def here? (c : Cursor) : Option Token :=
  c.after.head?

/-- The token after the one that comes next. -/
def ahead? (c : Cursor) : Option Token :=
  c.after.tail.head?

/-- The token passed last. -/
def behind? (c : Cursor) : Option Token :=
  c.before.head?

/-- The empty span behind the last token. -/
def endSpan (c : Cursor) : Span :=
  match c.tokens.getLast? with
  | some token => .empty token.span.stop
  | none => .empty 0

/-- The span of the token that comes next, or the empty span behind the last one. -/
def span (c : Cursor) : Span :=
  match c.here? with
  | some token => token.span
  | none => c.endSpan

/-- Passes the token that comes next. -/
def next? (c : Cursor) : Option (Token × Cursor) :=
  match c.after with
  | [] => none
  | token :: rest => some (token, ⟨token :: c.before, rest⟩)

/-- Whether a token comes next whose kind has a property. -/
def currentIs (c : Cursor) (p : TokenClass → Bool) : Bool :=
  match c.here? with
  | some token => p token.kind
  | none => false

@[simp] theorem tokens_start (tokens : List Token) : (start tokens).tokens = tokens :=
  rfl

@[simp] theorem position_start (tokens : List Token) : (start tokens).position = 0 :=
  rfl

theorem next?_eq_none_iff {c : Cursor} : c.next? = none ↔ c.after = [] := by
  unfold next?
  split <;> simp_all

theorem next?_eq_some_iff {c d : Cursor} {token : Token} :
    c.next? = some (token, d) ↔
      c.after = token :: d.after ∧ d.before = token :: c.before := by
  obtain ⟨before, after⟩ := c
  obtain ⟨before', after'⟩ := d
  cases after <;> simp [next?]
  constructor
  · rintro ⟨rfl, rfl, rfl⟩
    simp
  · rintro ⟨⟨rfl, rfl⟩, rfl⟩
    simp

/-- Passing a token changes nothing about the row of tokens. -/
theorem tokens_of_next? {c d : Cursor} {token : Token} (h : c.next? = some (token, d)) :
    d.tokens = c.tokens := by
  obtain ⟨hafter, hbefore⟩ := next?_eq_some_iff.1 h
  simp [tokens, hafter, hbefore]

theorem position_of_next? {c d : Cursor} {token : Token}
    (h : c.next? = some (token, d)) : d.position = c.position + 1 := by
  simp [position, (next?_eq_some_iff.1 h).2]

end Cursor

end FormulaGrading
