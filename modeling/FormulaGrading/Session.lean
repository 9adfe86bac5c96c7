import FormulaGrading.Grading.Exercise
import FormulaGrading.Grading.Review
import FormulaGrading.Session.Arguments

/-!
Sessions: an exercise is set by the answers that the session is started with, and every
line is a response to it or a command.
-/

namespace FormulaGrading.Session

open Grading

/-- A line of output, on the channel for results or the one for complaints. -/
inductive Output where
  | result (line : String)
  | complaint (line : String)
  deriving DecidableEq, Repr

/-- What is put out. The session breaks off at a report that cannot be drawn, and where
there are no trials to be drawn. -/
structure Transcript where
  output : List Output
  brokenOff : Bool
  deriving DecidableEq

namespace Transcript

instance : EmptyCollection Transcript :=
  ⟨⟨[], false⟩⟩

/-- One after the other, unless the session breaks off before. -/
def append (first second : Transcript) : Transcript :=
  if first.brokenOff then first
  else ⟨first.output ++ second.output, second.brokenOff⟩

instance : Append Transcript :=
  ⟨append⟩

/-- Several in order. -/
def concat (parts : List Transcript) : Transcript :=
  parts.foldr (· ++ ·) ∅

def result (line : String) : Transcript :=
  ⟨[.result line], false⟩

/-- A report, given its lines if it can be drawn. -/
def report (lines? : Option (List String)) : Transcript :=
  match lines? with
  | some lines => ⟨lines.map .complaint, false⟩
  | none => ⟨[], true⟩

def usageError (e : UsageError) : Transcript :=
  ⟨[.complaint ("error: " ++ e.message)], false⟩

/-- The end of a session that cannot go on. -/
def breakOff : Transcript :=
  ⟨[], true⟩

end Transcript

/-- The name of a typed text in reports. -/
def inputName : String :=
  "input"

/-- A formula, whose bound names are declared as variables, with its value. -/
def evaluation (formula : String) (b : Bindings) : Except Fault (Formula × Float) :=
  match Formula.parse b.names formula with
  | .error fault => .error fault
  | .ok e => (e.value b).map fun value => (e, value)

/-- The line that tells the value of a formula, and the bindings if there are any. -/
def evaluationLine (b : Bindings) (e : Formula) (value : Float) : String :=
  let equation := e.written ++ " = " ++ Decimal.text value
  if b.isEmpty then equation
  else
    let bindings := b.entries.map fun (name, x) => name ++ " = " ++ Decimal.text x
    equation ++ ", where " ++ ", ".intercalate bindings

/-- Evaluates a formula with bindings. -/
def evaluate (text : String) : Transcript :=
  match readEvaluation text with
  | .error e => .usageError e
  | .ok (formula, b) =>
      match evaluation formula b with
      | .ok (e, value) => .result (evaluationLine b e value)
      | .error fault => .report (fault.lines? inputName formula)

/-- The grade in its colour: green, yellow or red. -/
def coloured (grade : Grade) : String :=
  let colour := match grade with
    | .correct => "32"
    | .partly => "33"
    | .wrong => "31"
  "\x1b[" ++ colour ++ "m" ++ grade.text ++ "\x1b[0m"

/-- The line that tells a verdict. -/
def verdictLine (v : Verdict) : String :=
  let earned := coloured v.grade ++ " (" ++ Decimal.text v.credit ++ ")"
  match v.answer? with
  | some number => earned ++ ", matched answer " ++ numberSign number
  | none => earned

/-- Grades a response, and tells how it was understood or why it was not. -/
def respond (x : Exercise) (response : String) : Transcript :=
  match x.verdict? response with
  | none => .breakOff
  | some v =>
      let feedback : Transcript :=
        match v.feedback? with
        | some text => .result ("  " ++ text)
        | none => ∅
      let understood : Transcript :=
        match Formula.parse x.policy.names response with
        | .ok e => .result ("  read as " ++ e.written)
        | .error fault => .report (fault.lines? inputName response)
      .result (verdictLine v) ++ feedback ++ understood

/-- Lists the answers with what they are worth. -/
def listAnswers (x : Exercise) : Transcript :=
  .concat (x.answers.map fun a =>
    .result (numberSign a.number ++ " " ++ a.formula ++ " @ " ++ Decimal.text a.credit))

/-- What a line asks for. -/
inductive Command where
  | evaluate (text : String)
  | seed (text : String)
  | answers
  | respond (response : String)
  deriving DecidableEq, Repr

/-- Reads a line. What begins with no command is a response. -/
def Command.ofLine (line : String) : Command :=
  match commandWord line with
  | (":eval", rest) => .evaluate rest
  | (":seed", rest) => .seed rest
  | (":answers", _) => .answers
  | _ => .respond (Text.trim line)

/-- Carries out a command. Only a seed changes the exercise. -/
def Command.run (x : Exercise) : Command → Transcript × Exercise
  | .evaluate text => (Session.evaluate text, x)
  | .seed text =>
      match readSeed? text with
      | some number => (∅, x.reseed number)
      | none => (.usageError ⟨"invalid seed `" ++ text ++ "`"⟩, x)
  | .answers => (listAnswers x, x)
  | .respond response => (Session.respond x response, x)

/-- Answers a line. Blank lines are passed over. -/
def answerLine (x : Exercise) (line : String) : Transcript × Exercise :=
  if holdsWords line then (Command.ofLine line).run x else (∅, x)

/-- Answers lines in order, until the session breaks off. -/
def answerLines (x : Exercise) : List String → Transcript
  | [] => ∅
  | line :: rest =>
      let (transcript, next) := answerLine x line
      transcript ++ answerLines next rest

/-- Sets an exercise by its answers, with the usual policy. Harmless problems come first. -/
def setExercise (seed : UInt64) (args : List String) : Transcript × Option Exercise :=
  match readAnswersFrom 1 args with
  | .error e => (.usageError e, none)
  | .ok [] => (.usageError withoutAnswers, none)
  | .ok answers =>
      let policy : Policy := {}
      match policy.review? answers with
      | none => (.breakOff, none)
      | some problems =>
          let reports (selected : List Problem) : Transcript :=
            .concat (selected.map fun p => .report p.lines?)
          let harmless := problems.filter Problem.isHarmless
          let harmful := problems.filter fun p => !p.isHarmless
          let transcript := reports harmless ++ reports harmful
          (transcript,
            if harmful.isEmpty && !transcript.brokenOff then some ⟨answers, policy, seed⟩
            else none)

/-- How a session ends. -/
inductive Ending where
  | finished
  | refused
  | brokenOff
  deriving DecidableEq, Repr

/-- The code that tells the ending to whoever started the session. -/
def Ending.code : Ending → UInt32
  | .finished => 0
  | .refused => 1
  | .brokenOff => 101

/-- A whole session: its output and its ending. -/
def run (seed : UInt64) (args lines : List String) : List Output × Ending :=
  match setExercise seed args with
  | (start, none) => (start.output, if start.brokenOff then .brokenOff else .refused)
  | (start, some x) =>
      let all := start ++ answerLines x lines
      (all.output, if all.brokenOff then .brokenOff else .finished)

end FormulaGrading.Session
