import FormulaGrading.Bindings
import FormulaGrading.Function.Value
import FormulaGrading.Formula

/-!
The value of a formula under bindings of its names.

The value of every number, operation and call must be finite. A bound name has the
value that it is bound to, whatever that is, and a sign changes nothing about that.
-/

namespace FormulaGrading

/-- Accepts a value that is finite. -/
def finiteAt (span : Span) (value : Float) : Except Fault Float :=
  if value.isFinite then .ok value else .error ⟨[span], .outsideDomain .tooLarge⟩

/-- The value of a name: the one it is bound to, or else that of the constant. -/
def Bindings.valueOf (b : Bindings) (symbol : Symbol) : Except Fault Float :=
  match b.get? symbol.name with
  | some value => .ok value
  | none =>
      match constant? symbol.name with
      | some value => .ok value
      | none =>
          .error ⟨[symbol.span], .unboundName symbol.name (b.similarNames symbol.name)⟩

/-- Applies a sign. -/
def Sign.apply (sign : Sign) (x : Float) : Float :=
  match sign with
  | .plus => x
  | .minus => -x

/-- Whether a number has digits behind the point. Infinity counts as such a number. -/
def hasFraction (x : Float) : Bool :=
  let whole := if x < 0.0 then x.ceil else x.floor
  x - whole != 0.0

/-- Applies an operation at its place: `span` is that of the whole, `divisor` that of the
right operand. -/
def OperatorMark.apply (op : OperatorMark) (span divisor : Span) (x y : Float) :
    Except Fault Float :=
  let byZero : Fault := ⟨[op.span, divisor], .divisionByZero⟩
  match op.operation with
  | .add => finiteAt span (x + y)
  | .subtract => finiteAt span (x - y)
  | .multiply => finiteAt span (x * y)
  | .divide => if y == 0.0 then .error byZero else finiteAt span (x / y)
  | .power =>
      if x == 0.0 && y < 0.0 then .error byZero
      else if x < 0.0 && hasFraction y then
        .error ⟨[span], .outsideDomain .fractionalPower⟩
      else finiteAt span (x.pow y)

/-- Calls a function at its place: `span` is that of the whole, `argument` that of the
argument without brackets. -/
def RealFunction.callAt (f : RealFunction) (function : Symbol) (span argument : Span)
    (x : Float) : Except Fault Float :=
  match f.apply x with
  | .ok value => finiteAt span value
  | .error (.outsideDomain reason) => .error ⟨[span], .outsideDomain reason⟩
  | .error .divisionByZero => .error ⟨[function.span, argument], .divisionByZero⟩

/-- The value of a formula, or the first fault met from left to right, operands before
operations. -/
def Formula.value (b : Bindings) : Formula → Except Fault Float
  | .number value span => finiteAt span value
  | .symbol s => b.valueOf s
  | .signed mark operand _ =>
      match operand.value b with
      | .ok x => .ok (mark.sign.apply x)
      | .error fault => .error fault
  | .binary lhs op rhs span =>
      match lhs.value b with
      | .ok x =>
          match rhs.value b with
          | .ok y => op.apply span rhs.span x y
          | .error fault => .error fault
      | .error fault => .error fault
  | .call function argument _ span =>
      match RealFunction.ofName? function.name with
      | none =>
          .error ⟨[function.span], .outsideDomain (.withoutValue function.name)⟩
      | some f =>
          match argument.value b with
          | .ok x => f.callAt function span argument.span x
          | .error fault => .error fault

/-- Whether a value is close enough to a reference. The tolerance is absolute up to one
and relative beyond. -/
def isClose (candidate reference tolerance : Float) : Bool :=
  let magnitude := reference.abs
  let scale := if magnitude > 1.0 then magnitude else 1.0
  (candidate - reference).abs ≤ tolerance * scale

end FormulaGrading
