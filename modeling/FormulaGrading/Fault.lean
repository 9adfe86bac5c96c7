import FormulaGrading.Decimal.Shortest
import FormulaGrading.Token

/-!
Faults: what can be wrong with a formula or with an exercise, and where.
-/

namespace FormulaGrading

/-- Why a value lies outside the real numbers that can be represented. -/
inductive DomainReason where
  | squareRoot
  | logarithm
  | inverseSine
  | inverseHyperbolicCosine
  | inverseHyperbolicTangent
  | fractionalPower
  | tooLarge
  | withoutValue (name : String)
  deriving DecidableEq, Repr

/-- The causes of faults: in reading a formula, in finding its value, and in setting an
exercise. -/
inductive Cause where
  | unclosedBracket
  | unopenedBracket
  | missingOperand (operation : Operation)
  | straySign
  | unknownText (lexeme : String)
  /-- A name before a group that is not the name of a function. -/
  | noSuchFunction (name : String) (similar : List String)
  /-- A function that no group follows. -/
  | missingArgument (name : String)
  | missingFormula
  | tooDeep (limit : Nat)
  | tooLong (limit : Nat)
  | strayToken (expected : List TokenClass) (found : TokenClass)
  | unboundName (name : String) (similar : List String)
  | outsideDomain (reason : DomainReason)
  | divisionByZero
  | undeclaredName (name : String) (declared : List String)
  | badCredit (credit : Float)
  | badTolerance (tolerance : Float)
  | noTrials
  | badInterval (name : String) (lower upper : Float)
  | noFullCredit
  deriving DecidableEq

/-- A cause with the places in the text that it concerns, the main one first. -/
structure Fault where
  spans : List Span
  cause : Cause
  deriving DecidableEq

/-- Where the fault is reported: the start of its first place. -/
def Fault.offset (f : Fault) : Nat :=
  match f.spans with
  | [] => 0
  | span :: _ => span.start

end FormulaGrading
