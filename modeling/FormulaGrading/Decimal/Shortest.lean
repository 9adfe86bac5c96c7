import FormulaGrading.Decimal.Dyadic

/-!
The shortest decimal text of a binary64 number.

Among the decimals that round to the number, those with the fewest digits are
taken, and of these the nearest to the number; the larger one wins a tie. The text
is always positional.
-/

namespace FormulaGrading.Decimal

/-- The number `digits * 10 ^ exponent`. -/
structure Scaled where
  digits : Nat
  exponent : Int
  deriving DecidableEq, Repr

/-- The reals that round to a number, in units of `2 ^ exponent`. The ends belong to
the interval if `closed` holds. -/
structure RoundingInterval where
  low : Nat
  value : Nat
  high : Nat
  exponent : Int
  closed : Bool

/-- The reals between the midpoints to the two neighbours. Below a power of two the
neighbour is half as far away as above it. -/
def RoundingInterval.ofDyadic (d : Dyadic) : RoundingInterval :=
  let m := d.significand
  let below := if m = leadingBit && d.exponent ≠ -1074 then 1 else 2
  { low := 4 * m - below
    value := 4 * m
    high := 4 * m + 2
    exponent := d.exponent - 2
    closed := m % 2 = 0 }

/-- An interval together with the multiples of a power of ten, all in one unit. -/
structure Grid where
  low : Nat
  value : Nat
  high : Nat
  step : Nat
  closed : Bool

/-- The interval with the multiples of `10 ^ place`. -/
def RoundingInterval.grid (i : RoundingInterval) (place : Int) : Grid :=
  let scale := Nat.pow 2 i.exponent.toNat * Nat.pow 10 (-place).toNat
  { low := i.low * scale
    value := i.value * scale
    high := i.high * scale
    step := Nat.pow 2 (-i.exponent).toNat * Nat.pow 10 place.toNat
    closed := i.closed }

/-- Whether the multiple of the step lies in the interval. -/
def Grid.admits (g : Grid) (n : Nat) : Bool :=
  let x := n * g.step
  if g.closed then g.low ≤ x && x ≤ g.high else g.low < x && x < g.high

/-- The multiple in the interval that is nearest to the value, if the interval holds
one of the two multiples next to the value. -/
def Grid.nearest? (g : Grid) : Option Nat :=
  let below := g.value / g.step
  match g.admits below, g.admits (below + 1) with
  | true, true => some (if 2 * (g.value % g.step) < g.step then below else below + 1)
  | true, false => some below
  | false, true => some (below + 1)
  | false, false => none

/-- Tries ever finer powers of ten, starting with the given place. -/
def RoundingInterval.search (i : RoundingInterval) : Nat → Int → Option Scaled
  | 0, _ => none
  | tries + 1, place =>
      match (i.grid place).nearest? with
      | some n => some ⟨n, place⟩
      | none => i.search tries (place - 1)

/-- A place whose power of ten exceeds the number. -/
def Dyadic.topPlace (d : Dyadic) : Int :=
  ((d.significand.log2 : Int) + 1 + d.exponent) * 30103 / 100000 + 1

/-- The shortest decimal that rounds to a positive number. Seventeen digits always
suffice, and the first place tried is at most two above the leading digit. -/
def Dyadic.shortest (d : Dyadic) : Scaled :=
  ((RoundingInterval.ofDyadic d).search 20 d.topPlace).getD ⟨0, 0⟩

/-- The positional notation of a decimal. -/
def Scaled.positional (s : Scaled) : String :=
  let digits := (Nat.toDigits 10 s.digits)
  let places := (-s.exponent).toNat
  if places = 0 then String.ofList (digits ++ List.replicate s.exponent.toNat '0')
  else if digits.length ≤ places then
    String.ofList ('0' :: '.' :: (List.replicate (places - digits.length) '0' ++ digits))
  else
    let whole := digits.length - places
    String.ofList (digits.take whole ++ '.' :: digits.drop whole)

/-- The text of a number without its sign. -/
def magnitudeText (x : Float) : String :=
  if x.isNaN then "NaN"
  else if x.isInf then "inf"
  else
    let d := Dyadic.ofFloat x
    if d.significand = 0 then "0" else d.shortest.positional

/-- The text of a number: the shortest decimal in positional notation, with a minus
sign also for negative zero. -/
def text (x : Float) : String :=
  if isNegative x && !x.isNaN then "-" ++ magnitudeText x else magnitudeText x

end FormulaGrading.Decimal
