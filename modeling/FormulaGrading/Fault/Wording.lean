import FormulaGrading.Fault

/-!
The wording of faults: a message, a caption for each place, and sometimes a hint.
-/

namespace FormulaGrading

/-- The number of random trials of an exercise that does not ask for another. -/
def usualTrials : Nat :=
  10

/-- Words in quotation marks, with commas between them. -/
def quotedList (names : List String) : String :=
  ", ".intercalate (names.map fun name => "`" ++ name ++ "`")

def DomainReason.text : DomainReason → String
  | .squareRoot => "the square root of a negative number is undefined"
  | .logarithm => "the logarithm of a number that is not positive is undefined"
  | .inverseSine => "the inverse sine and cosine are only defined between -1 and 1"
  | .inverseHyperbolicCosine =>
      "the inverse hyperbolic cosine is only defined from 1 upwards"
  | .inverseHyperbolicTangent =>
      "the inverse hyperbolic tangent is only defined strictly between -1 and 1"
  | .fractionalPower => "a negative number cannot be raised to a fractional power"
  | .tooLarge => "the result is too large to represent"
  | .withoutValue name => "`" ++ name ++ "` cannot be evaluated"

namespace Cause

/-- One line that says what is wrong. -/
def message : Cause → String
  | .unclosedBracket => "Mismatched brackets: Open bracket without a close bracket found"
  | .unopenedBracket => "Mismatched brackets: Close bracket without an open bracket found"
  | .missingOperand operation =>
      "Syntax Error: Operator '" ++ operation.symbol ++ "' requires two arguments"
  | .straySign => "Syntax Error: Found a + or - in an invalid location"
  | .unknownText lexeme => "Syntax Error: Unknown token `" ++ lexeme ++ "`"
  | .noSuchFunction name _ => "Syntax Error: Unknown function `" ++ name ++ "`"
  | .missingArgument name =>
      "Syntax Error: Function `" ++ name ++ "` must be followed by a bracketed argument"
  | .missingFormula => "Syntax Error: Expected an expression"
  | .tooDeep _ => "Syntax Error: Expression is nested too deeply"
  | .tooLong _ => "Syntax Error: Expression is too long"
  | .strayToken _ found => "Syntax Error: Unexpected token `" ++ found.label ++ "`"
  | .unboundName name _ => "`" ++ name ++ "` has no value"
  | .outsideDomain reason => "Math Error: " ++ reason.text
  | .divisionByZero => "Math Error: Division by zero"
  | .undeclaredName name _ => "`" ++ name ++ "` is not a declared variable"
  | .badCredit credit =>
      "the fraction of an answer must be between 0 and 1, but it is " ++ Decimal.text credit
  | .badTolerance tolerance =>
      "the tolerance must be a non-negative number, but it is " ++ Decimal.text tolerance
  | .noTrials => "at least one trial is needed to compare answers"
  | .badInterval name lower upper =>
      "`" ++ name ++ "` has an invalid sampling range [" ++ Decimal.text lower ++ ", " ++
        Decimal.text upper ++ "]"
  | .noFullCredit => "none of the answers gives full credit"

/-- What is written at each place, the main one first. A fault of an exercise concerns no
place in a text. -/
def captions : Cause → List String
  | .unclosedBracket | .unopenedBracket => ["this bracket"]
  | .missingOperand _ => ["this operator"]
  | .straySign => ["this sign"]
  | .unknownText _ => ["I don't know what this is"]
  | .noSuchFunction .. | .missingArgument _ => ["this function"]
  | .missingFormula => ["add an expression here"]
  | .tooDeep _ => ["nesting limit reached here"]
  | .tooLong _ => ["the expression is cut off here"]
  | .strayToken .. => ["this token"]
  | .unboundName .. => ["this variable"]
  | .outsideDomain _ => ["this expression"]
  | .divisionByZero => ["this operation", "this evaluates to zero"]
  | .undeclaredName .. => ["this variable"]
  | .badCredit _ | .badTolerance _ | .noTrials | .badInterval .. | .noFullCredit => []

/-- A hint at how to mend it. -/
def hint? : Cause → Option String
  | .unclosedBracket => some "add a closing bracket ) somewhere after this"
  | .unopenedBracket => some "add an opening bracket ( somewhere before this"
  | .missingOperand _ => some "add an expression on both sides of the operator"
  | .straySign => some "a sign must be followed by an expression"
  | .unknownText _ =>
      some "expressions may only contain numbers, letters, `+ - * / ^` and brackets"
  | .noSuchFunction _ [] =>
      some "to multiply a variable by a bracketed expression, add an explicit `*`"
  | .noSuchFunction _ similar => some ("did you mean " ++ quotedList similar ++ "?")
  | .missingArgument name => some ("write it as " ++ name ++ "(...)")
  | .missingFormula => none
  | .tooDeep limit =>
      some ("expressions may be nested at most " ++ toString limit ++ " levels deep")
  | .tooLong limit =>
      some ("expressions may contain at most " ++ toString limit ++
        " numbers, names, operators and brackets")
  | .strayToken expected _ =>
      some ("expected one of: " ++ ", ".intercalate (expected.map TokenClass.label))
  | .unboundName name [] =>
      some ("give " ++ name ++ " a value before evaluating the expression")
  | .unboundName _ similar => some ("did you mean " ++ quotedList similar ++ "?")
  | .outsideDomain _ => none
  | .divisionByZero => none
  | .undeclaredName name [] =>
      some ("declare " ++ name ++ " as a variable of the question")
  | .undeclaredName _ declared =>
      some ("the declared variables are: " ++ quotedList declared)
  | .badCredit _ =>
      some "use 1 for a fully correct answer and a value below 1 for partial credit"
  | .badTolerance _ => none
  | .noTrials => some ("the default is " ++ toString usualTrials ++ " trials")
  | .badInterval .. =>
      some "both bounds must be finite, and the lower bound must not exceed the upper bound"
  | .noFullCredit => some "set the fraction of the correct answer to 1"

end Cause

/-- The message with the offset at which the fault is reported. -/
def Fault.describe (f : Fault) : String :=
  f.cause.message ++ " at offset " ++ toString f.offset

end FormulaGrading
