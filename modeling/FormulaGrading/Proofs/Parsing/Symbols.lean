import FormulaGrading.Proofs.Parsing.Layout
import FormulaGrading.Proofs.Walking

/-!
The order of symbols. A formula that is read lists its symbols as they stand in the text, since
each of them is a token, and tokens are passed from left to right.
-/

namespace FormulaGrading

theorem LiesBetween.pairwise_before {lo hi : Nat} {tokens : List Token}
    (h : LiesBetween lo hi tokens) : (tokens.map Token.span).Pairwise Span.Before := by
  induction tokens generalizing lo with
  | nil => exact .nil
  | cons t rest ih =>
      obtain ⟨-, -, hrest⟩ := h
      refine List.pairwise_cons.2 ⟨fun span hspan => ?_, ih hrest⟩
      obtain ⟨u, hu, rfl⟩ := List.mem_map.1 hspan
      exact (hrest.of_mem hu).1

namespace Formula

variable {value : Float} {s : Symbol} {mark : SignMark} {op : OperatorMark}
  {lhs rhs operand argument : Formula} {function : Symbol} {brackets span : Span}

@[simp] theorem freeSymbols_number : (Formula.number value span).freeSymbols = [] := by
  simp [freeSymbols, walk_eq_nodes, nodes, freeSymbol?]

@[simp] theorem freeSymbols_symbol : (Formula.symbol s).freeSymbols =
    if isConstantName s.name then [] else [s] := by
  rw [freeSymbols, walk_eq_nodes, nodes, List.filterMap_cons, freeSymbol?]
  cases isConstantName s.name <;> rfl

@[simp] theorem freeSymbols_signed :
    (Formula.signed mark operand span).freeSymbols = operand.freeSymbols := by
  simp [freeSymbols, walk_eq_nodes, nodes, freeSymbol?]

@[simp] theorem freeSymbols_combine :
    (lhs.combine op rhs).freeSymbols = lhs.freeSymbols ++ rhs.freeSymbols := by
  simp [freeSymbols, walk_eq_nodes, combine, nodes, freeSymbol?]

@[simp] theorem freeSymbols_call :
    (Formula.call function argument brackets span).freeSymbols = argument.freeSymbols := by
  simp [freeSymbols, walk_eq_nodes, nodes, freeSymbol?]

end Formula

/-- Each symbol is a token, and both are in the same order. -/
theorem Phrase.freeSymbols_sublist {ts : List Token} {e : Formula} (h : Phrase ts e) :
    (e.freeSymbols.map Symbol.span).Sublist (ts.map Token.span) := by
  induction h with
  | binary _ _ _ ihl ihr =>
      rw [Formula.freeSymbols_combine, List.map_append, List.map_append, List.map_cons]
      exact ihl.append (ihr.cons _)
  | adjacent _ _ ihl ihr =>
      rw [Formula.freeSymbols_combine, List.append_cons, List.map_append, List.map_append]
      exact ihl.append ihr
  | signed _ _ ih => simpa using ih.cons _
  | number => simp
  | symbol =>
      rw [Formula.freeSymbols_symbol]
      split <;> simp
  | call _ _ _ _ _ ih =>
      rw [Formula.freeSymbols_call, List.map_cons, List.map_cons, List.map_append]
      exact ((ih.trans (List.sublist_append_left ..)).cons _).cons _
  | group _ _ _ ih =>
      rw [List.map_cons, List.map_append]
      exact (ih.trans (List.sublist_append_left ..)).cons _

/-- Symbols that are listed later stand further to the right. -/
theorem pairwise_freeSymbols {declared : List String} {text : String} {e : Formula}
    (h : Formula.parse declared text = .ok e) :
    e.freeSymbols.Pairwise fun s s' => s.span.Before s'.span := by
  obtain ⟨tokens, hscan, hphrase⟩ := exists_phrase_of_parse h
  rw [← List.pairwise_map]
  exact (Token.liesBetween_of_scan hscan).pairwise_before.sublist hphrase.freeSymbols_sublist

end FormulaGrading
