import FormulaGrading.Formula.Unknowns
import FormulaGrading.Formula.Value
import FormulaGrading.Grading.Policy
import FormulaGrading.Grading.Verdict
import FormulaGrading.Parser
import FormulaGrading.Text.Blank
import FormulaGrading.Text.Lowercase

/-!
Comparing a response with answers. The first answer, in order, that the response is
equivalent to decides the verdict. A response that cannot be read or has no value is
equivalent to none.
-/

namespace FormulaGrading.Grading

open Sampling

/-- A text without blanks, and without regard to case unless told otherwise. -/
def canonical (keepsCase : Bool) (text : String) : String :=
  let letters := Text.compact text.toList
  String.ofList (if keepsCase then letters else Text.lowercase letters)

/-- Whether the values of a response and a reference agree on one trial. A value that is
missing agrees with nothing. -/
def agree (tolerance : Float) (candidate : Option Float)
    (reference : Except Fault Float) : Bool :=
  match candidate, reference with
  | some c, .ok r => isClose c r tolerance
  | _, _ => false

/-- Whether a reference agrees with the values of a response on all trials. -/
def agreesOnAll (tolerance : Float) (values : List (Option Float))
    (trials : List Bindings) (reference : Formula) : Bool :=
  (values.zip trials).all fun (value, trial) =>
    agree tolerance value (reference.value trial)

namespace Policy

/-- The first answer with the same canonical text as a response. A blank response has no
such answer. -/
def findByText (p : Policy) (answers : List Answer) (response : String) :
    Option Answer :=
  let text := canonical p.keepsCase response
  if text.isEmpty then none
  else answers.find? fun a => canonical p.keepsCase a.formula == text

/-- Reads a formula with the declared variables. -/
def read? (p : Policy) (text : String) : Option Formula :=
  (Formula.parse p.names text).toOption

/-- The variables of the trials: those declared, or else all that occur in the formulas. -/
def sampled (p : Policy) (formulas : List Formula) : List Variable :=
  if p.declared.isEmpty then
    (Text.sortedNames (formulas.flatMap Formula.freeNames)).map Variable.usual
  else p.declared

/-- The answers that can be read, each with its formula. -/
def readAnswers (p : Policy) (answers : List Answer) : List (Answer × Formula) :=
  answers.filterMap fun a => (p.read? a.formula).map fun e => (a, e)

/-- The first answer that agrees with a response on all trials. A policy with a fault, and
a response that cannot be read, lead to none. There is no result at all if the trials
cannot be drawn. -/
def findByValue? (p : Policy) (answers : List Answer) (seed : UInt64)
    (response : String) : Option (Option Answer) :=
  if p.fault?.isSome then some none
  else
    match p.read? response with
    | none => some none
    | some candidate =>
        let references := p.readAnswers answers
        let vs := p.sampled (candidate :: references.map Prod.snd)
        match trials? vs p.trials seed with
        | none => none
        | some trials =>
            let values := trials.map fun b => (candidate.value b).toOption
            some ((references.find? fun reference =>
              agreesOnAll p.tolerance values trials reference.2).map Prod.fst)

/-- The verdict on a response. There is none if the trials cannot be drawn. -/
def verdict? (p : Policy) (answers : List Answer) (seed : UInt64) (response : String) :
    Option Verdict :=
  match p.comparison with
  | .byValue => (p.findByValue? answers seed response).map Verdict.ofSearch
  | .byText => some (.ofSearch (p.findByText answers response))

end Policy

end FormulaGrading.Grading
