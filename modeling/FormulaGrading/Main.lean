import FormulaGrading.Session

/-!
The command line: the arguments are the answers, and the lines of standard input are
responses and commands.
-/

open FormulaGrading Session

/-- Puts lines on their channels. -/
def put (output : List Output) : IO Unit :=
  output.forM fun line =>
    match line with
    | .result text => IO.println text
    | .complaint text => IO.eprintln text

/-- Answers lines as they come, until there are no more. -/
partial def serve (stream : IO.FS.Stream) (x : Grading.Exercise) : IO Ending := do
  let line ← stream.getLine
  if line.isEmpty then return .finished
  let (transcript, next) := answerLine x line
  put transcript.output
  if transcript.brokenOff then return .brokenOff
  serve stream next

def main (args : List String) : IO UInt32 := do
  let seed ← IO.rand 0 (UInt64.size - 1)
  let (start, exercise?) := setExercise (UInt64.ofNat seed) args
  put start.output
  match exercise? with
  | none => return (if start.brokenOff then Ending.brokenOff else .refused).code
  | some x => return (← serve (← IO.getStdin) x).code
