import FormulaGrading.Formula.Walk
import FormulaGrading.Text.Names

/-!
The names that a formula leaves to be given a value.
-/

namespace FormulaGrading.Formula

/-- The symbol at a node, unless it is the name of a constant. -/
def freeSymbol? : Formula → Option Symbol
  | .symbol s => if isConstantName s.name then none else some s
  | _ => none

/-- The symbols that are not constants, from left to right. -/
def freeSymbols (e : Formula) : List Symbol :=
  e.walk.filterMap freeSymbol?

/-- The names of the variables, sorted, each of them once. -/
def freeNames (e : Formula) : List String :=
  Text.sortedNames (e.freeSymbols.map Symbol.name)

end FormulaGrading.Formula
