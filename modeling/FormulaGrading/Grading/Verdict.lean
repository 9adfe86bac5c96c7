import FormulaGrading.Grading.Answer

/-!
Verdicts: what a response has earned.
-/

namespace FormulaGrading.Grading

/-- The grades that a credit can stand for. -/
inductive Grade where
  | correct
  | partly
  | wrong
  deriving DecidableEq, Repr

namespace Grade

/-- Credits this close to none or to the full one count as that. -/
def closeness : Float :=
  1e-7

/-- The grade for a credit. -/
def ofCredit (credit : Float) : Grade :=
  if credit ≥ 1.0 - closeness then .correct
  else if credit > closeness then .partly
  else .wrong

def text : Grade → String
  | .correct => "correct"
  | .partly => "partially correct"
  | .wrong => "incorrect"

end Grade

/-- The credit for a response, with the number of the answer that it is equivalent to. -/
structure Verdict where
  credit : Float
  answer? : Option UInt64
  feedback? : Option String
  grade : Grade
  deriving DecidableEq

namespace Verdict

/-- For a response that is equivalent to no answer. -/
def noCredit : Verdict :=
  { credit := 0.0, answer? := none, feedback? := none, grade := .wrong }

/-- For a response that is equivalent to an answer. -/
def ofAnswer (a : Answer) : Verdict :=
  { credit := a.credit
    answer? := some a.number
    feedback? := if a.feedback.isEmpty then none else some a.feedback
    grade := .ofCredit a.credit }

/-- For the answer that a search came up with, if it did. -/
def ofSearch (found : Option Answer) : Verdict :=
  match found with
  | some a => ofAnswer a
  | none => noCredit

@[simp] theorem ofSearch_none : ofSearch none = noCredit :=
  rfl

@[simp] theorem ofSearch_some (a : Answer) : ofSearch (some a) = ofAnswer a :=
  rfl

@[simp] theorem answer?_noCredit : noCredit.answer? = none :=
  rfl

@[simp] theorem answer?_ofAnswer (a : Answer) : (ofAnswer a).answer? = some a.number :=
  rfl

end Verdict

end FormulaGrading.Grading
