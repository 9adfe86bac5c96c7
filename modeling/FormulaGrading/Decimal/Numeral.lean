import FormulaGrading.Decimal.Dyadic

/-!
Reading decimal numbers.

An unsigned number has digits with an optional point, at least one of them a digit,
and an optional exponent. A signed number may also be a word for infinity or for no
number. The value is rounded to the nearest binary64 number.
-/

namespace FormulaGrading.Decimal

/-- The number written by decimal digits. -/
def natOfDigits (digits : List Char) : Nat :=
  digits.foldl (fun n c => 10 * n + (c.toNat - '0'.toNat)) 0

/-- The binary64 number nearest to `digits * 10 ^ exponent`. Beyond `10 ^ 400` this is
infinity, and below `10 ^ (-399)` it is zero, whatever the digits. -/
def rounded (digits : Nat) (exponent : Int) : Float :=
  if digits = 0 then 0.0
  else if 400 < exponent then infinity
  else if exponent < -400 - (digits.log2 : Int) then 0.0
  else Float.ofScientific digits (exponent < 0) exponent.natAbs

/-- Reads the digits of an exponent. -/
def exponentDigits? (cs : List Char) : Option Nat :=
  if !cs.isEmpty && cs.all Char.isDigit then some (natOfDigits cs) else none

/-- Reads what follows the digits of a number: nothing, or an exponent. -/
def exponent? : List Char → Option Int
  | [] => some 0
  | c :: cs =>
      if c = 'e' || c = 'E' then
        match cs with
        | '-' :: rest => (exponentDigits? rest).map fun n => -(n : Int)
        | '+' :: rest => (exponentDigits? rest).map Int.ofNat
        | rest => (exponentDigits? rest).map Int.ofNat
      else none

/-- Splits off a point and the digits behind it. -/
def splitFraction : List Char → List Char × List Char
  | '.' :: rest => (rest.takeWhile Char.isDigit, rest.dropWhile Char.isDigit)
  | rest => ([], rest)

/-- Reads an unsigned decimal number. -/
def readUnsigned? (cs : List Char) : Option Float :=
  let whole := cs.takeWhile Char.isDigit
  let (fraction, rest) := splitFraction (cs.dropWhile Char.isDigit)
  if whole.isEmpty && fraction.isEmpty then none
  else
    (exponent? rest).map fun e =>
      rounded (natOfDigits (whole ++ fraction)) (e - (fraction.length : Int))

/-- Reads an unsigned decimal number, or one of the words for infinity and for no
number in any mixture of cases. -/
def readMagnitude? (cs : List Char) : Option Float :=
  let word := String.ofList (cs.map Char.toLower)
  if word = "inf" || word = "infinity" then some infinity
  else if word = "nan" then some notANumber
  else readUnsigned? cs

/-- Reads a number with an optional sign. -/
def read? (text : String) : Option Float :=
  match text.toList with
  | '-' :: cs => (readMagnitude? cs).map fun x => -x
  | '+' :: cs => readMagnitude? cs
  | cs => readMagnitude? cs

end FormulaGrading.Decimal
