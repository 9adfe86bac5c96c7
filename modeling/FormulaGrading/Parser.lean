import FormulaGrading.Token.Brackets
import FormulaGrading.Parser.Level
import FormulaGrading.Token.Scan

/-!
Parsers: a text under way of being read as a formula, and the steps that such a
reading consists of.

A text that cannot be split into tokens, or into too many, is held back as a fault
until a whole formula is asked for; till then its parser has no tokens.
-/

namespace FormulaGrading

/-- The largest number of tokens that is read. -/
def tokenLimit : Nat :=
  1024

/-- A text under way of being read. -/
structure Parser where
  cursor : Cursor
  /-- The fault of a text without usable tokens, until it is reported. -/
  heldBack : Option Fault
  /-- How many levels down the reading is. -/
  depth : Nat
  depth_le : depth ≤ nestingLimit
  /-- Names that are variables even in front of a group. -/
  declared : List String

namespace Parser

/-- The tokens of a text, unless there are too many. The first token beyond the limit is
then at fault. -/
def tokensOf (text : String) : Except Fault (List Token) :=
  match Token.scan text with
  | .error fault => .error fault
  | .ok tokens =>
      match tokens.drop tokenLimit with
      | [] => .ok tokens
      | excess :: _ => .error ⟨[excess.span], .tooLong tokenLimit⟩

/-- A parser in front of a text. -/
def ofText (declared : List String) (text : String) : Parser :=
  let (tokens, heldBack) :=
    match tokensOf text with
    | .ok tokens => (tokens, none)
    | .error fault => ([], some fault)
  { cursor := .start tokens
    heldBack := heldBack
    depth := 0
    depth_le := Nat.zero_le _
    declared := declared }

/-- Declares further variables. -/
def declare (p : Parser) (names : List String) : Parser :=
  { p with declared := p.declared ++ names }

/-- The level at which the parser reads. -/
def level (p : Parser) : Level :=
  .ofDescents p.declared (nestingLimit - p.depth)

/-- Reads from the place where the parser is. -/
def read {α : Type} (p : Parser) (r : Level → Reading α) : Except Fault α × Parser :=
  let (result, cursor) := r p.level p.cursor
  (result, { p with cursor := cursor })

/-- Reads one level further down, and comes back up again. -/
def deeper {α : Type} (p : Parser) (f : Parser → Except Fault α × Parser) :
    Except Fault α × Parser :=
  if h : p.depth < nestingLimit then
    let (result, q) := f { p with depth := p.depth + 1, depth_le := h }
    (result, { q with depth := p.depth, depth_le := p.depth_le })
  else (.error ⟨[p.cursor.span], .tooDeep nestingLimit⟩, p)

/-- Reads any number of levels further down. -/
def deeperTimes {α : Type} (f : Parser → Except Fault α × Parser) :
    Nat → Parser → Except Fault α × Parser
  | 0, p => f p
  | n + 1, p => p.deeper (deeperTimes f n)

/-- The fault of a token that is left over behind a whole formula. -/
def leftoverFault (token : Token) : Fault :=
  ⟨[token.span],
    if token.kind = .closeBracket then .unopenedBracket
    else .strayToken [] token.kind⟩

/-- Reads, and requires that no token is left. A fault held back is reported first, and
then a bracket without its partner anywhere in the text. -/
def readWhole {α : Type} (p : Parser) (r : Level → Reading α) :
    Except Fault α × Parser :=
  match p.heldBack with
  | some fault => (.error fault, { p with heldBack := none })
  | none =>
      match bracketFault? p.cursor.tokens with
      | some fault => (.error fault, p)
      | none =>
          let (result, q) := p.read r
          match result, q.cursor.here? with
          | .ok _, some token => (.error (leftoverFault token), q)
          | result, _ => (result, q)

end Parser

/-- Reads a whole text as a formula, with some names declared as variables. -/
def Formula.parse (declared : List String) (text : String) : Except Fault Formula :=
  ((Parser.ofText declared text).readWhole Level.formula).1

end FormulaGrading
