import FormulaGrading.Text.Blank

/-!
Old records of attempts, which hold at most one text.
-/

namespace FormulaGrading.Grading

/-- The record of an attempt, with the response as it was given. -/
structure OldRecord where
  response? : Option String
  deriving DecidableEq, Repr

namespace OldRecord

/-- The response without the blanks around it, unless nothing is left of it. -/
def trimmed? (r : OldRecord) : Option String :=
  (r.response?.map Text.trim).filter fun text => !text.isEmpty

/-- Whether the response is more than blanks. -/
def holdsResponse (r : OldRecord) : Bool :=
  r.trimmed?.isSome

end OldRecord

end FormulaGrading.Grading
