import FormulaGrading.Text.EditDistance

/-!
Values of names, sorted by name.
-/

namespace FormulaGrading

/-- Names with their values. Each name occurs once, and the names are sorted. -/
structure Bindings where
  entries : List (String × Float)
  deriving DecidableEq

namespace Bindings

instance : EmptyCollection Bindings :=
  ⟨⟨[]⟩⟩

/-- Binds a name in a sorted list, in place of an earlier value. -/
def insertEntry (name : String) (value : Float) :
    List (String × Float) → List (String × Float)
  | [] => [(name, value)]
  | (key, old) :: rest =>
      if name < key then (name, value) :: (key, old) :: rest
      else if name = key then (name, value) :: rest
      else (key, old) :: insertEntry name value rest

/-- Binds a name, in place of an earlier value. -/
def insert (b : Bindings) (name : String) (value : Float) : Bindings :=
  ⟨insertEntry name value b.entries⟩

/-- Binds names one after the other. -/
def ofList (entries : List (String × Float)) : Bindings :=
  entries.foldl (fun b entry => b.insert entry.1 entry.2) ∅

/-- The value of a name. -/
def get? (b : Bindings) (name : String) : Option Float :=
  b.entries.lookup name

/-- The bound names, sorted. -/
def names (b : Bindings) : List String :=
  b.entries.map Prod.fst

/-- Whether nothing is bound. -/
def isEmpty (b : Bindings) : Bool :=
  b.entries.isEmpty

/-- The bound names that are at most one edit away from a name. -/
def similarNames (b : Bindings) (name : String) : List String :=
  b.names.filter fun known => Text.similar known name

@[simp] theorem get?_empty (name : String) : (∅ : Bindings).get? name = none :=
  rfl

@[simp] theorem names_empty : (∅ : Bindings).names = [] :=
  rfl

theorem lookup_cons_eq_ite (key other : String) (value : Float)
    (entries : List (String × Float)) :
    ((key, value) :: entries).lookup other =
      if other = key then some value else entries.lookup other := by
  by_cases h : other = key
  · simp [h]
  · rw [List.lookup_cons, beq_eq_false_iff_ne.2 h, if_neg h]

theorem lookup_insertEntry (name other : String) (value : Float)
    (entries : List (String × Float)) :
    (insertEntry name value entries).lookup other =
      if other = name then some value else entries.lookup other := by
  induction entries with
  | nil => exact lookup_cons_eq_ite name other value []
  | cons entry rest ih =>
      obtain ⟨key, old⟩ := entry
      unfold insertEntry
      split
      · exact lookup_cons_eq_ite name other value _
      · split
        · next heq =>
            simp only [lookup_cons_eq_ite, heq]
            split <;> rfl
        · next hne =>
            simp only [lookup_cons_eq_ite, ih]
            by_cases h : other = key
            · simp [h, Ne.symm hne]
            · simp [h]

/-- The name that was bound last has the value that it was bound to, and the others keep
theirs. -/
@[simp] theorem get?_insert (b : Bindings) (name other : String) (value : Float) :
    (b.insert name value).get? other =
      if other = name then some value else b.get? other :=
  lookup_insertEntry name other value b.entries

theorem mem_map_fst_insertEntry (name other : String) (value : Float)
    (entries : List (String × Float)) :
    other ∈ (insertEntry name value entries).map Prod.fst ↔
      other = name ∨ other ∈ entries.map Prod.fst := by
  induction entries with
  | nil => simp [insertEntry]
  | cons entry rest ih =>
      unfold insertEntry
      split
      · simp
      · split
        · next heq => simp [heq]
        · rw [List.map_cons, List.mem_cons, ih, List.map_cons, List.mem_cons]
          exact or_left_comm

@[simp] theorem mem_names_insert (b : Bindings) (name other : String) (value : Float) :
    other ∈ (b.insert name value).names ↔ other = name ∨ other ∈ b.names :=
  mem_map_fst_insertEntry name other value b.entries

end Bindings

end FormulaGrading
