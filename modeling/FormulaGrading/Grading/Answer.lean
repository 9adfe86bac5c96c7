import FormulaGrading.Fault

/-!
The answers of an exercise, and the credit that each of them is worth.
-/

namespace FormulaGrading.Grading

/-- How an answer is referred to. -/
def numberSign (number : UInt64) : String :=
  "#" ++ toString number.toNat

/-- A formula under a number, with the credit for responses that are equivalent to it and
a comment on such responses. -/
structure Answer where
  number : UInt64
  formula : String
  credit : Float
  feedback : String := ""
  deriving DecidableEq

/-- Whether a number is a credit: a fraction of the full one. -/
def isCredit (x : Float) : Bool :=
  0.0 ≤ x && x ≤ 1.0

/-- The fault of a number that should be a credit. -/
def creditFault (x : Float) : Fault :=
  ⟨[], .badCredit x⟩

/-- An answer without feedback, whose credit must be one. -/
def Answer.make (number : UInt64) (formula : String) (credit : Float) :
    Except Fault Answer :=
  if isCredit credit then .ok { number, formula, credit } else .error (creditFault credit)

/-- The credit from which on an answer counts as fully correct. -/
def fullCreditFrom : Float :=
  0.999

/-- The first answer that counts as fully correct. -/
def fullCreditAnswer? (answers : List Answer) : Option Answer :=
  answers.find? fun a => a.credit ≥ fullCreditFrom

/-- The first answer that is worth more than the least that counts as fully correct. Old
records name this one as the right answer. -/
def displayedAnswer? (answers : List Answer) : Option Answer :=
  answers.find? fun a => a.credit > fullCreditFrom

end FormulaGrading.Grading
