/-!
Finite binary64 numbers as integers times powers of two.
-/

namespace FormulaGrading.Decimal

/-- The number `significand * 2 ^ exponent`. -/
structure Dyadic where
  significand : Nat
  exponent : Int
  deriving DecidableEq, Repr

/-- The bit in front of the 52 bits of a fraction. -/
def leadingBit : Nat :=
  0x10000000000000

/-- The magnitude of a finite number. A number that is not finite gives the value that
its bits would have if the largest exponent were an ordinary one. -/
def Dyadic.ofFloat (x : Float) : Dyadic :=
  let bits : Nat := x.toBits.toNat
  let fraction := bits % leadingBit
  let exponent : Nat := bits / leadingBit % 2048
  if exponent = 0 then ⟨fraction, -1074⟩
  else ⟨fraction + leadingBit, (exponent : Int) - 1075⟩

/-- Whether the sign bit is set. -/
def isNegative (x : Float) : Bool :=
  0x8000000000000000 ≤ x.toBits.toNat

/-- The value of the largest exponent with an empty fraction. -/
def infinity : Float :=
  Float.ofBits 0x7FF0000000000000

/-- The number that stands for no number. -/
def notANumber : Float :=
  Float.ofBits 0x7FF8000000000000

end FormulaGrading.Decimal
