import FormulaGrading.Formula.Unknowns
import FormulaGrading.Proofs.Walking.PostOrder
import Mathlib.Data.List.Sort
import Mathlib.Data.String.Basic

/-!
The free names of a formula are those of the symbols at its nodes, listed in order.
-/

namespace FormulaGrading

/-- Whether a name occurs in a formula as that of a variable. -/
def Formula.IsFree (e : Formula) (name : String) : Prop :=
  ∃ span, .symbol ⟨name, span⟩ ∈ e.nodes ∧ isConstantName name = false

section

variable {name : String} {value : Float} {s : Symbol} {mark : SignMark} {op : OperatorMark}
  {lhs rhs operand argument : Formula} {function : Symbol} {brackets span : Span}

@[simp] theorem Formula.isFree_number : ¬(Formula.number value span).IsFree name := by
  simp [IsFree, nodes]

@[simp] theorem Formula.isFree_symbol :
    (Formula.symbol s).IsFree name ↔ name = s.name ∧ isConstantName name = false := by
  simp only [IsFree, nodes, List.mem_singleton, Formula.symbol.injEq]
  constructor
  · rintro ⟨span, rfl, hconstant⟩
    exact ⟨rfl, hconstant⟩
  · rintro ⟨rfl, hconstant⟩
    exact ⟨s.span, rfl, hconstant⟩

@[simp] theorem Formula.isFree_signed :
    (Formula.signed mark operand span).IsFree name ↔ operand.IsFree name := by
  simp [IsFree, nodes]

@[simp] theorem Formula.isFree_binary :
    (Formula.binary lhs op rhs span).IsFree name ↔ lhs.IsFree name ∨ rhs.IsFree name := by
  simp [IsFree, nodes, or_and_right, exists_or]

@[simp] theorem Formula.isFree_call :
    (Formula.call function argument brackets span).IsFree name ↔ argument.IsFree name := by
  simp [IsFree, nodes]

end

theorem Formula.mem_freeSymbols {e : Formula} {s : Symbol} :
    s ∈ e.freeSymbols ↔ .symbol s ∈ e.nodes ∧ isConstantName s.name = false := by
  rw [freeSymbols, walk_eq_nodes, List.mem_filterMap]
  constructor
  · rintro ⟨node, hnode, hfree⟩
    cases node with
    | symbol s' =>
        simp only [freeSymbol?] at hfree
        split at hfree
        next => exact nomatch hfree
        next hconstant =>
          obtain rfl := Option.some.inj hfree
          exact ⟨hnode, by simpa using hconstant⟩
    | _ => exact nomatch hfree
  · rintro ⟨hnode, hconstant⟩
    exact ⟨_, hnode, by simp [freeSymbol?, hconstant]⟩

theorem Formula.mem_freeNames {e : Formula} {name : String} :
    name ∈ e.freeNames ↔ e.IsFree name := by
  rw [freeNames, Text.mem_sortedNames, List.mem_map]
  constructor
  · rintro ⟨s, hs, rfl⟩
    obtain ⟨hnode, hconstant⟩ := mem_freeSymbols.1 hs
    exact ⟨s.span, hnode, hconstant⟩
  · rintro ⟨span, hnode, hconstant⟩
    exact ⟨⟨name, span⟩, mem_freeSymbols.2 ⟨hnode, hconstant⟩, rfl⟩

namespace Text

/-- Adding a name keeps a list of names in order. -/
theorem pairwise_insertName {name : String} {names : List String}
    (h : names.Pairwise (· < ·)) : (insertName name names).Pairwise (· < ·) := by
  induction names with
  | nil => exact List.pairwise_singleton ..
  | cons first rest ih =>
      obtain ⟨hfirst, hrest⟩ := List.pairwise_cons.1 h
      unfold insertName
      split
      next hlt =>
        refine List.pairwise_cons.2 ⟨fun other hother => ?_, h⟩
        rcases List.mem_cons.1 hother with rfl | hother
        · exact hlt
        · exact lt_trans hlt (hfirst other hother)
      next hge =>
        split
        next => exact h
        next hne =>
          refine List.pairwise_cons.2 ⟨fun other hother => ?_, ih hrest⟩
          rcases mem_insertName.1 hother with rfl | hother
          · exact lt_of_le_of_ne (not_lt.1 hge) (Ne.symm hne)
          · exact hfirst other hother

/-- The names are in order, each of them once. -/
theorem pairwise_sortedNames (names : List String) :
    (sortedNames names).Pairwise (· < ·) := by
  have hfold : ∀ sorted : List String, sorted.Pairwise (· < ·) →
      (names.foldl (fun sorted name => insertName name sorted) sorted).Pairwise (· < ·) := by
    induction names with
    | nil => exact fun _ h => h
    | cons name rest ih => exact fun _ h => ih _ (pairwise_insertName h)
  exact hfold [] .nil

/-- A set of names has one sorted list. -/
theorem eq_sortedNames {names sorted : List String} (hsorted : sorted.Pairwise (· < ·))
    (hmem : ∀ name, name ∈ sorted ↔ name ∈ names) : sorted = sortedNames names :=
  hsorted.eq_of_mem_iff (pairwise_sortedNames names) fun name => by
    rw [hmem, mem_sortedNames]

end Text

/-- Formulas in which the same names are free list them in the same order. -/
theorem Formula.freeNames_eq_of_isFree {e e' : Formula}
    (h : ∀ name, e.IsFree name ↔ e'.IsFree name) : e.freeNames = e'.freeNames := by
  refine Text.eq_sortedNames (Text.pairwise_sortedNames _) fun name => ?_
  rw [mem_freeNames, h name, ← mem_freeNames, freeNames, Text.mem_sortedNames]

end FormulaGrading
