import FormulaGrading.Decimal.Shortest
import FormulaGrading.Formula

/-!
The written form of a formula, with as few brackets as reading it back allows.
-/

namespace FormulaGrading

/-- Puts a text in brackets if asked to. -/
def bracketedIf (brackets : Bool) (text : String) : String :=
  if brackets then "(" ++ text ++ ")" else text

namespace OperatorMark

/-- Whether the left operand needs brackets: it binds more loosely, or equally where
equal operators group to the right. -/
def bracketsLeft (op : OperatorMark) (lhs : Formula) : Bool :=
  lhs.precedence.looser op.precedence ||
    (lhs.precedence == op.precedence && op.groupsRight)

/-- Whether the right operand needs brackets. A sign needs none: it applies to all that
follows it. -/
def bracketsRight (op : OperatorMark) (rhs : Formula) : Bool :=
  !rhs.isSigned &&
    (rhs.precedence.looser op.precedence ||
      (rhs.precedence == op.precedence && !op.groupsRight))

end OperatorMark

/-- The written form of a formula. Implicit products are written out. -/
def Formula.written : Formula → String
  | .number value _ => Decimal.text value
  | .symbol s => s.name
  | .signed mark operand _ =>
      mark.sign.symbol ++
        bracketedIf (operand.precedence.looser mark.sign.precedence) operand.written
  | .binary lhs op rhs _ =>
      bracketedIf (op.bracketsLeft lhs) lhs.written ++ op.operation.symbol ++
        bracketedIf (op.bracketsRight rhs) rhs.written
  | .call function argument .. => function.name ++ "(" ++ argument.written ++ ")"

end FormulaGrading
