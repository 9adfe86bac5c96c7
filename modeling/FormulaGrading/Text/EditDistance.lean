/-!
Edit distance: the least number of insertions, deletions and replacements of one
character that turn one text into another.
-/

namespace FormulaGrading.Text

/-- The rest of a row of the distance table, given the entries above it (the first
of them, `diagonal`, lies above the entry to the left) and the entry to the left. -/
def distanceRowFrom (c : Char) : List Char → Nat → Nat → List Nat → List Nat
  | d :: ds, diagonal, left, above :: rest =>
      let entry := min (min (above + 1) (left + 1)) (diagonal + if c = d then 0 else 1)
      entry :: distanceRowFrom c ds above entry rest
  | _, _, _, _ => []

/-- The row of the distance table below the given one. -/
def distanceRow (target : List Char) (row : List Nat) (c : Char) : List Nat :=
  match row with
  | [] => []
  | first :: rest => (first + 1) :: distanceRowFrom c target first (first + 1) rest

/-- The edit distance between two texts, counted in characters. -/
def editDistance (source target : String) : Nat :=
  let start := List.range (target.toList.length + 1)
  ((source.toList.foldl (distanceRow target.toList) start).getLast?).getD 0

/-- Two names are similar if at most one edit separates them. -/
def similar (source target : String) : Bool :=
  editDistance source target < 2

end FormulaGrading.Text
