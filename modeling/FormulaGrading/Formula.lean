import FormulaGrading.Function
import FormulaGrading.Operation
import FormulaGrading.Text.Span

/-!
Formulas as trees. Every node knows which bytes of the text it was read from;
brackets leave no trace but the shape of the tree.
-/

namespace FormulaGrading

/-- A name at its place in the text. -/
structure Symbol where
  name : String
  span : Span
  deriving DecidableEq, Repr

/-- A sign at its place in the text. -/
structure SignMark where
  sign : Sign
  span : Span
  deriving DecidableEq, Repr

/-- A binary operation at its place in the text. An implicit product has no token, and
its span is the gap between its operands. -/
structure OperatorMark where
  operation : Operation
  implicit : Bool
  span : Span
  deriving DecidableEq, Repr

namespace OperatorMark

def precedence (op : OperatorMark) : Precedence :=
  op.operation.precedence

def groupsRight (op : OperatorMark) : Bool :=
  op.operation.groupsRight

end OperatorMark

/-- A formula. -/
inductive Formula where
  | number (value : Float) (span : Span)
  | symbol (s : Symbol)
  | signed (mark : SignMark) (operand : Formula) (span : Span)
  | binary (lhs : Formula) (op : OperatorMark) (rhs : Formula) (span : Span)
  | call (function : Symbol) (argument : Formula) (brackets span : Span)
  deriving DecidableEq, Repr

namespace Formula

/-- The bytes that the formula was read from. Brackets around it are left out. -/
def span : Formula → Span
  | .number _ span => span
  | .symbol s => s.span
  | .signed _ _ span => span
  | .binary _ _ _ span => span
  | .call _ _ _ span => span

/-- How tightly the outermost operation binds. -/
def precedence : Formula → Precedence
  | .number .. | .symbol _ | .call .. => .atom
  | .signed mark .. => mark.sign.precedence
  | .binary _ op .. => op.precedence

/-- Whether the outermost operation is a sign. -/
def isSigned : Formula → Bool
  | .signed .. => true
  | _ => false

/-- The number of nodes. -/
def size : Formula → Nat
  | .number .. | .symbol _ => 1
  | .signed _ operand _ => operand.size + 1
  | .binary lhs _ rhs _ => lhs.size + rhs.size + 1
  | .call _ argument .. => argument.size + 1

end Formula

end FormulaGrading
