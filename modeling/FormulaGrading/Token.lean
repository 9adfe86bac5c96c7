import FormulaGrading.Operation
import FormulaGrading.Text.Span

/-!
Tokens: the words of a formula, with the text and place of each.
-/

namespace FormulaGrading

/-- The kinds of tokens. Blanks between tokens leave no trace. -/
inductive TokenClass where
  | add
  | subtract
  | multiply
  | divide
  | power
  | openBracket
  | closeBracket
  | name
  | number
  deriving DecidableEq, Repr

namespace TokenClass

/-- The name under which a kind is reported. -/
def label : TokenClass → String
  | .add => "Add"
  | .subtract => "Sub"
  | .multiply => "Mul"
  | .divide => "Div"
  | .power => "Exp"
  | .openBracket => "OpenParen"
  | .closeBracket => "CloseParen"
  | .name => "Name"
  | .number => "Number"

/-- The sign that a token of this kind is in front of an operand. -/
def sign? : TokenClass → Option Sign
  | .add => some .plus
  | .subtract => some .minus
  | _ => none

/-- The operation that a token of this kind is between operands. -/
def operation? : TokenClass → Option Operation
  | .add => some .add
  | .subtract => some .subtract
  | .multiply => some .multiply
  | .divide => some .divide
  | .power => some .power
  | _ => none

/-- Whether the kind is both a sign and an operation. -/
def mayBeSign : TokenClass → Bool
  | .add | .subtract => true
  | _ => false

/-- Whether the kind is an operation that cannot be a sign. -/
def isStrictlyBinary : TokenClass → Bool
  | .multiply | .divide | .power => true
  | _ => false

/-- Whether the kind begins a number, a name or a group. -/
def opensAtom : TokenClass → Bool
  | .number | .name | .openBracket => true
  | _ => false

/-- Whether the kind begins an operand, which may carry signs. -/
def opensOperand (k : TokenClass) : Bool :=
  k.opensAtom || k.mayBeSign

end TokenClass

/-- A token with its text and the bytes that it takes up. -/
structure Token where
  kind : TokenClass
  lexeme : String
  span : Span
  deriving DecidableEq, Repr

end FormulaGrading
