import FormulaGrading.Fault.Wording

/-!
Reports: a fault set against the text that it is about.
-/

namespace FormulaGrading

/-- The parts of a report that do not depend on the text. -/
structure Report where
  title : String
  captions : List String
  hint? : Option String
  deriving DecidableEq

def Fault.report (f : Fault) : Report :=
  { title := "Error: " ++ f.cause.message
    captions := f.cause.captions
    hint? := f.cause.hint? }

/-- The line and column of a character, both counted from one. -/
def lineAndColumn (text : String) (index : Nat) : Nat × Nat :=
  let before := text.toList.take index
  (before.count '\n' + 1, (before.reverse.takeWhile (· ≠ '\n')).length + 1)

/-- The lines of a report: the title, and for a fault with a place in the text that
place and the hint. An empty text has no line to point at, so a fault with a place in
it cannot be drawn. -/
def Fault.lines? (f : Fault) (sourceName source : String) : Option (List String) :=
  let report := f.report
  if f.spans.isEmpty then some [report.title]
  else if source.isEmpty then none
  else
    let (line, column) := lineAndColumn source f.offset
    let place := "at " ++ sourceName ++ ":" ++ toString line ++ ":" ++ toString column
    some (report.title :: place :: (report.hint?.map fun hint => "help: " ++ hint).toList)

end FormulaGrading
