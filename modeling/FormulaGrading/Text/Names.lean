/-!
Sets of names as sorted lists.
-/

namespace FormulaGrading.Text

/-- Adds a name to a sorted list unless it is there already. -/
def insertName (name : String) : List String → List String
  | [] => [name]
  | first :: rest =>
      if name < first then name :: first :: rest
      else if name = first then first :: rest
      else first :: insertName name rest

/-- The names of a list, sorted, each of them once. -/
def sortedNames (names : List String) : List String :=
  names.foldl (fun sorted name => insertName name sorted) []

@[simp] theorem mem_insertName {name other : String} {names : List String} :
    other ∈ insertName name names ↔ other = name ∨ other ∈ names := by
  induction names with
  | nil => simp [insertName]
  | cons first rest ih =>
      unfold insertName
      split
      · simp
      · split
        · next heq => simp [heq]
        · rw [List.mem_cons, ih, List.mem_cons]
          exact or_left_comm

theorem mem_foldl_insertName {other : String} {names sorted : List String} :
    other ∈ names.foldl (fun sorted name => insertName name sorted) sorted ↔
      other ∈ names ∨ other ∈ sorted := by
  induction names generalizing sorted with
  | nil => simp
  | cons first rest ih =>
      rw [List.foldl_cons, ih, mem_insertName, List.mem_cons, or_left_comm, or_assoc]

/-- Sorting neither adds names nor loses any. -/
@[simp] theorem mem_sortedNames {other : String} {names : List String} :
    other ∈ sortedNames names ↔ other ∈ names := by
  simp [sortedNames, mem_foldl_insertName]

end FormulaGrading.Text
