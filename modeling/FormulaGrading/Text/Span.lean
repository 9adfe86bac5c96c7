/-!
Spans: half-open ranges of byte positions in a text.
-/

namespace FormulaGrading

/-- The bytes from `start` up to, but not including, `stop`. -/
structure Span where
  start : Nat
  stop : Nat
  deriving DecidableEq, Repr

namespace Span

/-- The empty span at a position. -/
def empty (position : Nat) : Span :=
  ⟨position, position⟩

/-- From the start of the first span to the end of the second. -/
def join (first last : Span) : Span :=
  ⟨first.start, last.stop⟩

/-- From the end of the first span to the start of the second. -/
def gap (first last : Span) : Span :=
  ⟨first.stop, last.start⟩

end Span

end FormulaGrading
