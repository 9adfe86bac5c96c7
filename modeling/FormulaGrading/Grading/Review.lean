import FormulaGrading.Fault.Report
import FormulaGrading.Grading.Equivalence

/-!
Reviewing an exercise when it is set. A response that fails is merely wrong, but an
answer that fails can never be matched, so whoever sets the exercise is told.
-/

namespace FormulaGrading.Grading

open Sampling

/-- The seed of the trials that answers are tried on. -/
def reviewSeed : UInt64 :=
  0

/-- A fault of an exercise. -/
structure Problem where
  /-- The answer at fault, if it is one. -/
  answer? : Option UInt64
  /-- The text that the places of the fault lie in. -/
  source : String
  fault : Fault
  deriving DecidableEq

namespace Problem

/-- A fault of an answer. -/
def ofAnswer (a : Answer) (fault : Fault) : Problem :=
  ⟨some a.number, a.formula, fault⟩

/-- A fault of the exercise as a whole. -/
def ofExercise (fault : Fault) : Problem :=
  ⟨none, "", fault⟩

/-- Whether the exercise can be used all the same. -/
def isHarmless (p : Problem) : Bool :=
  match p.fault.cause with
  | .noFullCredit => true
  | _ => false

/-- What the text is called in reports. -/
def sourceName (p : Problem) : String :=
  match p.answer? with
  | some number => "answer " ++ numberSign number
  | none => "question"

/-- The fault in one line. -/
def describe (p : Problem) : String :=
  match p.answer? with
  | some number => "answer " ++ numberSign number ++ ": " ++ p.fault.describe
  | none => p.fault.describe

/-- The lines of the report. -/
def lines? (p : Problem) : Option (List String) :=
  p.fault.lines? p.sourceName p.source

end Problem

namespace Policy

/-- The fault of the leftmost variable that is not declared. -/
def undeclaredFault? (p : Policy) (e : Formula) : Option Fault :=
  (e.freeSymbols.find? fun s => !p.names.contains s.name).map fun s =>
    ⟨[s.span], .undeclaredName s.name p.names⟩

/-- The first fault that a formula meets on trials. -/
def faultOnTrials? (e : Formula) (trials : List Bindings) : Option Fault :=
  trials.findSome? fun b =>
    match e.value b with
    | .ok _ => none
    | .error fault => some fault

/-- The first fault of an answer. It is tried only if asked for. There is no result if the
trials cannot be drawn. -/
def answerFault? (p : Policy) (tried : Bool) (a : Answer) : Option (Option Fault) :=
  if !isCredit a.credit then some (some (creditFault a.credit))
  else
    match Formula.parse p.names a.formula with
    | .error fault => some (some fault)
    | .ok e =>
        let undeclared := if p.declared.isEmpty then none else p.undeclaredFault? e
        match undeclared with
        | some fault => some (some fault)
        | none =>
            if tried then
              (trials? (p.sampled [e]) p.trials reviewSeed).map (faultOnTrials? e)
            else some none

/-- The faults of the intervals of variables. -/
def intervalFaults (p : Policy) : List Fault :=
  (p.declared.filter fun v => !v.interval.isValid).map fun v =>
    ⟨[], .badInterval v.name v.interval.lower v.interval.upper⟩

/-- The problems with answers, in order. -/
def answerProblems? (p : Policy) (tried : Bool) : List Answer → Option (List Problem)
  | [] => some []
  | a :: rest =>
      match p.answerFault? tried a with
      | none => none
      | some fault? =>
          (p.answerProblems? tried rest).map fun problems =>
            (fault?.map (Problem.ofAnswer a)).toList ++ problems

/-- All problems: with the policy, with each answer, and a harmless one if no answer is
fully correct. There is no result if trials cannot be drawn. -/
def review? (p : Policy) (answers : List Answer) : Option (List Problem) :=
  let ofPolicy := (p.fault?.toList ++ p.intervalFaults).map Problem.ofExercise
  let ofCredits :=
    if (fullCreditAnswer? answers).isSome then []
    else [Problem.ofExercise ⟨[], .noFullCredit⟩]
  (p.answerProblems? p.fault?.isNone answers).map fun ofAnswers =>
    ofPolicy ++ ofAnswers ++ ofCredits

end Policy

end FormulaGrading.Grading
