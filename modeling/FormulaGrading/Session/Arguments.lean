import FormulaGrading.Bindings
import FormulaGrading.Decimal.Numeral
import FormulaGrading.Fault.Wording
import FormulaGrading.Grading.Answer
import FormulaGrading.Text.Blank

/-!
The written forms in which a session takes answers, seeds and bindings.
-/

namespace FormulaGrading.Session

open Grading

/-- What is said about a text that is not in the right form. -/
structure UsageError where
  message : String
  deriving DecidableEq, Repr

/-- For a session that is started without answers. -/
def withoutAnswers : UsageError :=
  ⟨"usage: algebra-repl <answer>[@fraction] ..."⟩

/-- The characters before the first one with a property and those after it, if there is
one. -/
def splitAtFirst? (p : Char → Bool) : List Char → Option (List Char × List Char)
  | [] => none
  | c :: cs =>
      if p c then some ([], cs)
      else (splitAtFirst? p cs).map fun (before, after) => (c :: before, after)

/-- The characters before the last one with a property and those after it, if there is
one. -/
def splitAtLast? (p : Char → Bool) (cs : List Char) : Option (List Char × List Char) :=
  (splitAtFirst? p cs.reverse).map fun (after, before) => (before.reverse, after.reverse)

/-- Reads an answer: a formula, and after the last `@` the credit that it is worth, which
is full if there is none. -/
def readAnswer (number : UInt64) (arg : String) : Except UsageError Answer :=
  let make (formula : String) (credit : Float) : Except UsageError Answer :=
    match Answer.make number formula credit with
    | .ok answer => .ok answer
    | .error fault => .error ⟨fault.cause.message ++ " in `" ++ arg ++ "`"⟩
  match splitAtLast? (· == '@') arg.toList with
  | none => make arg 1.0
  | some (formula, credit) =>
      match Decimal.read? (String.ofList (Text.trimmed credit)) with
      | some value => make (String.ofList formula) value
      | none =>
          .error ⟨"invalid fraction `" ++ String.ofList credit ++ "` in `" ++ arg ++ "`"⟩

/-- Reads answers, numbered from the given number on. -/
def readAnswersFrom : Nat → List String → Except UsageError (List Answer)
  | _, [] => .ok []
  | number, arg :: rest =>
      match readAnswer (UInt64.ofNat number) arg with
      | .error e => .error e
      | .ok answer =>
          match readAnswersFrom (number + 1) rest with
          | .error e => .error e
          | .ok answers => .ok (answer :: answers)

/-- Reads a number without a sign, or with a plus sign, that fits into 64 bits. -/
def readSeed? (text : String) : Option UInt64 :=
  let digits := match text.toList with
    | '+' :: cs => cs
    | cs => cs
  if !digits.isEmpty && digits.all Char.isDigit then
    let value := Decimal.natOfDigits digits
    if value < UInt64.size then some (UInt64.ofNat value) else none
  else none

/-- Reads a word `name=value`. -/
def readBinding? (word : List Char) : Option (String × Float) :=
  match splitAtFirst? (· == '=') word with
  | none => none
  | some (name, value) =>
      if name.isEmpty then none
      else (Decimal.read? (String.ofList value)).map fun x => (String.ofList name, x)

/-- Reads words `name=value` on top of other bindings. -/
def readBindings (b : Bindings) : List (List Char) → Except UsageError Bindings
  | [] => .ok b
  | word :: rest =>
      match readBinding? word with
      | some (name, value) => readBindings (b.insert name value) rest
      | none =>
          .error ⟨"invalid binding `" ++ String.ofList word ++ "`, expected `name=value`"⟩

/-- Splits off the bindings behind a formula. They begin with the word that contains the
first `=`. -/
def splitBindings (cs : List Char) : List Char × List Char :=
  let before := cs.takeWhile (· != '=')
  if before.length = cs.length then (cs, [])
  else
    let word := (before.reverse.takeWhile fun c => !Text.isBlank c).reverse
    let formula := before.take (before.length - word.length)
    (formula, cs.drop formula.length)

/-- Reads a formula with bindings behind it. -/
def readEvaluation (text : String) : Except UsageError (String × Bindings) :=
  let (formula, bindings) := splitBindings text.toList
  match readBindings ∅ (Text.wordLists bindings) with
  | .ok b => .ok (String.ofList (Text.trimmed formula), b)
  | .error e => .error e

/-- The first word of a line and what comes after it, without blanks around them. -/
def commandWord (line : String) : String × String :=
  let cs := Text.trimmed line.toList
  match splitAtFirst? Text.isBlank cs with
  | some (command, rest) => (String.ofList command, String.ofList (Text.trimmed rest))
  | none => (String.ofList cs, "")

end FormulaGrading.Session
