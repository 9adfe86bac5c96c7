import FormulaGrading.Sampling.ChaCha

/-!
Intervals of numbers, and random numbers from them.

Numbers near zero are drawn again some times, since many formulas are singular there.
-/

namespace FormulaGrading.Sampling

/-- The numbers between two bounds, both included. Nothing is said about the bounds; see
`Interval.isValid`. -/
structure Interval where
  lower : Float
  upper : Float
  deriving DecidableEq

namespace Interval

/-- The interval of a variable that does not declare one. -/
def usual : Interval :=
  ⟨-5.0, 5.0⟩

/-- Whether the bounds are finite and in order. -/
def isValid (i : Interval) : Bool :=
  i.lower.isFinite && i.upper.isFinite && i.lower ≤ i.upper

/-- The interval with the given bounds if it is valid. -/
def ofBounds? (lower upper : Float) : Option Interval :=
  let i : Interval := ⟨lower, upper⟩
  if i.isValid then some i else none

/-- The largest fraction that is drawn: one less the distance between fractions. -/
def largestFraction : Float :=
  Float.ofBits 0x3FEFFFFFFFFFFFFE

/-- The largest number with bits up to the given ones that takes no fraction beyond the
upper bound. -/
def shrinkScale (i : Interval) : Nat → Float
  | 0 => 0.0
  | bits + 1 =>
      let scale := Float.ofBits (UInt64.ofNat (bits + 1))
      if scale * largestFraction + i.lower > i.upper then shrinkScale i bits else scale

/-- The factor from fractions to distances above the lower bound. There is none if the
bounds are out of order or so far apart that the factor is not finite. -/
def scale? (i : Interval) : Option Float :=
  if i.lower ≤ i.upper then
    let scale := (i.upper - i.lower) / largestFraction
    if scale.isFinite then some (i.shrinkScale scale.toBits.toNat) else none
  else none

/-- A fraction of 52 random bits. -/
def fractionOf (number : UInt64) : Float :=
  (number >>> 12).toFloat / 4503599627370496.0

/-- Draws a number with a known factor. -/
def drawScaled (i : Interval) (scale : Float) (s : Stream) : Float × Stream :=
  let (number, rest) := s.next
  (fractionOf number * scale + i.lower, rest)

/-- Numbers of smaller magnitude are drawn again. -/
def nearZero : Float :=
  0.1

/-- How often a number is drawn at most. -/
def drawLimit : Nat :=
  32

/-- Draws again for as long as the number is too near to zero, up to a number of times. -/
def redraw (i : Interval) (scale : Float) : Nat → Float × Stream → Float × Stream
  | 0, drawn => drawn
  | times + 1, drawn =>
      if drawn.1.abs ≥ nearZero then drawn
      else redraw i scale times (i.drawScaled scale drawn.2)

/-- A random number from the interval, away from zero if that can be had. An interval of
one number needs no random bits. There is no number if there is no factor. -/
def draw? (i : Interval) (s : Stream) : Option (Float × Stream) :=
  if i.lower == i.upper then some (i.lower, s)
  else i.scale?.map fun scale =>
    i.redraw scale (drawLimit - 1) (i.drawScaled scale s)

end Interval

end FormulaGrading.Sampling
