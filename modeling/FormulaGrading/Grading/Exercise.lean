import FormulaGrading.Formula.Written
import FormulaGrading.Grading.Equivalence

/-!
Exercises that are answered by a formula.
-/

namespace FormulaGrading.Grading

/-- Answers in order, how responses are compared with them, and the seed of the trials. -/
structure Exercise where
  answers : List Answer
  policy : Policy
  seed : UInt64
  deriving DecidableEq

/-- What is put on record of a response. -/
inductive Entry where
  | blank
  | graded (answer? : Option UInt64) (words : String) (credit : Float)
  deriving DecidableEq

/-- Whether a response is more than blanks. It is not read. -/
def holdsWords (response : String) : Bool :=
  !(Text.trim response).isEmpty

/-- The words of a response, one blank apart. -/
def singleSpaced (response : String) : String :=
  " ".intercalate (Text.words response)

namespace Exercise

/-- The exercise with another seed. -/
def reseed (x : Exercise) (seed : UInt64) : Exercise :=
  { x with seed := seed }

/-- The verdict on a response. -/
def verdict? (x : Exercise) (response : String) : Option Verdict :=
  x.policy.verdict? x.answers x.seed response

/-- The formula of the first fully correct answer. -/
def model? (x : Exercise) : Option String :=
  (fullCreditAnswer? x.answers).map Answer.formula

/-- The entry for a response. -/
def entry? (x : Exercise) (response : String) : Option Entry :=
  if holdsWords response then
    (x.verdict? response).map fun v => .graded v.answer? (singleSpaced response) v.credit
  else some .blank

/-- How a response was understood. -/
def readAs? (x : Exercise) (response : String) : Option String :=
  (x.policy.read? response).map Formula.written

end Exercise

end FormulaGrading.Grading
