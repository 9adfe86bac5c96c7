import FormulaGrading.Bindings
import FormulaGrading.Sampling.Interval

/-!
Trials: random values for the variables of an exercise.

All formulas of one comparison are evaluated under the same trials. One stream of
random numbers serves all variables of all trials, in order.
-/

namespace FormulaGrading.Sampling

/-- A variable with the interval that its values are drawn from. -/
structure Variable where
  name : String
  interval : Interval
  deriving DecidableEq

/-- A variable with the usual interval. -/
def Variable.usual (name : String) : Variable :=
  ⟨name, .usual⟩

/-- Draws a value for every variable. A variable listed twice keeps the later value. -/
def bindAll? : List Variable → Bindings → Stream → Option (Bindings × Stream)
  | [], b, s => some (b, s)
  | v :: rest, b, s =>
      match v.interval.draw? s with
      | none => none
      | some (value, s') => bindAll? rest (b.insert v.name value) s'

/-- The given number of trials from a stream. -/
def trialsFrom? (vs : List Variable) : Nat → Stream → Option (List Bindings)
  | 0, _ => some []
  | count + 1, s =>
      match bindAll? vs ∅ s with
      | none => none
      | some (b, s') => (trialsFrom? vs count s').map fun rest => b :: rest

/-- The trials for a seed. There are none if a value is wanted from an interval that has
no numbers to draw. -/
def trials? (vs : List Variable) (count : Nat) (seed : UInt64) :
    Option (List Bindings) :=
  trialsFrom? vs count (.ofSeed seed)

end FormulaGrading.Sampling
