import FormulaGrading.Function
import FormulaGrading.Fault

/-!
The functions over the real numbers. An argument outside the domain of a function is
refused; a result may still be too large, or be no number if the argument was none.
-/

namespace FormulaGrading

/-- Why a function has no value. -/
inductive Refusal where
  | outsideDomain (reason : DomainReason)
  | divisionByZero
  deriving DecidableEq, Repr

namespace RealFunction

/-- The logarithm of one more than a number. What the sum loses of a small number is
made good in proportion. -/
def logOnePlus (x : Float) : Float :=
  let sum := 1.0 + x
  if sum == 1.0 || sum.isInf then x else sum.log * (x / (sum - 1.0))

/-- The hypotenuse over a leg of one and another. Where the second dwarfs the first it
is the second. -/
def hypotenuseOverOne (x : Float) : Float :=
  if x > 1e9 then x else (1.0 + x * x).sqrt

/-- The inverse hyperbolic sine, found for the magnitude of the argument. Near the largest
numbers the sum under the logarithm is infinite. -/
def arsinh (x : Float) : Float :=
  let magnitude := x.abs
  let inverse := 1.0 / magnitude
  let value := logOnePlus (magnitude + magnitude / (hypotenuseOverOne inverse + inverse))
  if Decimal.isNegative x then -value else value

/-- The inverse hyperbolic cosine of a number from one upwards. Near the largest numbers
the sum under the logarithm is infinite. -/
def arcosh (x : Float) : Float :=
  (x + (x - 1.0).sqrt * (x + 1.0).sqrt).log

/-- The inverse hyperbolic tangent of a number strictly between minus one and one. -/
def artanh (x : Float) : Float :=
  0.5 * logOnePlus ((2.0 * x) / (1.0 - x))

/-- The reciprocal of a number other than zero. -/
def reciprocal (x : Float) : Except Refusal Float :=
  if x == 0.0 then .error .divisionByZero else .ok (1.0 / x)

/-- Applies a function. -/
def apply (f : RealFunction) (x : Float) : Except Refusal Float :=
  match f with
  | .abs => .ok x.abs
  | .sqrt => if x < 0.0 then .error (.outsideDomain .squareRoot) else .ok x.sqrt
  | .exp => .ok x.exp
  | .ln => if x ≤ 0.0 then .error (.outsideDomain .logarithm) else .ok x.log
  | .log => if x ≤ 0.0 then .error (.outsideDomain .logarithm) else .ok x.log10
  | .sin => .ok x.sin
  | .cos => .ok x.cos
  | .tan => .ok x.tan
  | .sec => reciprocal x.cos
  | .csc => reciprocal x.sin
  | .cot => reciprocal x.tan
  | .asin =>
      if -1.0 ≤ x && x ≤ 1.0 then .ok x.asin else .error (.outsideDomain .inverseSine)
  | .acos =>
      if -1.0 ≤ x && x ≤ 1.0 then .ok x.acos else .error (.outsideDomain .inverseSine)
  | .atan => .ok x.atan
  | .sinh => .ok x.sinh
  | .cosh => .ok x.cosh
  | .tanh => .ok x.tanh
  | .asinh => .ok (arsinh x)
  | .acosh =>
      if x < 1.0 then .error (.outsideDomain .inverseHyperbolicCosine) else .ok (arcosh x)
  | .atanh =>
      if x ≤ -1.0 || 1.0 ≤ x then .error (.outsideDomain .inverseHyperbolicTangent)
      else .ok (artanh x)

end RealFunction

end FormulaGrading
