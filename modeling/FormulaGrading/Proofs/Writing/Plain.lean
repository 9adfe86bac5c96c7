import FormulaGrading.Formula.Value
import FormulaGrading.Proofs.Walking
import FormulaGrading.Proofs.Writing.RoundTrip

/-!
What a formula means does not depend on where its parts stand in a text. Places only show
in faults, so two formulas that are the same but for places have the same values and the
same free names.
-/

namespace FormulaGrading

section

variable {b : Bindings} {x y : Float}

theorem toOption_finiteAt (span : Span) :
    (finiteAt span x).toOption = if x.isFinite then some x else none := by
  unfold finiteAt
  split <;> rfl

theorem Bindings.toOption_valueOf {s t : Symbol} (h : s.name = t.name) :
    (b.valueOf s).toOption = (b.valueOf t).toOption := by
  unfold Bindings.valueOf
  rw [h]
  split
  · rfl
  · split <;> rfl

theorem OperatorMark.toOption_apply {op op' : OperatorMark} (h : op.operation = op'.operation)
    (span divisor span' divisor' : Span) :
    (op.apply span divisor x y).toOption = (op'.apply span' divisor' x y).toOption := by
  unfold OperatorMark.apply
  rw [h]
  cases op'.operation with
  | add | subtract | multiply => simp only [toOption_finiteAt]
  | divide =>
      simp only
      split
      · rfl
      · simp only [toOption_finiteAt]
  | power =>
      simp only
      split
      · rfl
      · split
        · rfl
        · simp only [toOption_finiteAt]

theorem RealFunction.toOption_callAt {f : RealFunction} (function function' : Symbol)
    (span argument span' argument' : Span) :
    (f.callAt function span argument x).toOption =
      (f.callAt function' span' argument' x).toOption := by
  unfold RealFunction.callAt
  split
  · simp only [toOption_finiteAt]
  · rfl
  · rfl

namespace Formula

variable {mark : SignMark} {operand lhs rhs argument : Formula} {op : OperatorMark}
  {function : Symbol} {brackets span : Span}

theorem toOption_value_signed :
    ((Formula.signed mark operand span).value b).toOption =
      (operand.value b).toOption.map mark.sign.apply := by
  rw [value]
  cases operand.value b <;> rfl

theorem toOption_value_binary :
    ((Formula.binary lhs op rhs span).value b).toOption =
      (lhs.value b).toOption.bind fun x =>
        (rhs.value b).toOption.bind fun y => (op.apply span rhs.span x y).toOption := by
  rw [value]
  cases lhs.value b with
  | error fault => rfl
  | ok x => cases rhs.value b <;> rfl

theorem toOption_value_call :
    ((Formula.call function argument brackets span).value b).toOption =
      (RealFunction.ofName? function.name).bind fun f =>
        (argument.value b).toOption.bind fun x =>
          (f.callAt function span argument.span x).toOption := by
  rw [value]
  cases RealFunction.ofName? function.name with
  | none => rfl
  | some f => cases argument.value b <;> rfl

/-- Neither the places of its parts nor whether products have tokens makes a difference to the
value of a formula. -/
theorem toOption_value_plain (b : Bindings) (e : Formula) :
    (e.plain.value b).toOption = (e.value b).toOption := by
  induction e with
  | number x span => simp only [plain, value, toOption_finiteAt]
  | symbol s => exact Bindings.toOption_valueOf rfl
  | signed mark operand span ih => simp only [plain, toOption_value_signed, ih]
  | binary lhs op rhs span ihl ihr =>
      simp only [plain, toOption_value_binary, ihl, ihr]
      refine congrArg _ (funext fun x => congrArg _ (funext fun y => ?_))
      refine OperatorMark.toOption_apply ?_ ..
      rfl
  | call function argument brackets span ih =>
      simp only [plain, toOption_value_call, ih]
      refine congrArg _ (funext fun f => congrArg _ (funext fun x => ?_))
      exact RealFunction.toOption_callAt ..

theorem nodes_plain (e : Formula) : e.plain.nodes = e.nodes.map plain := by
  induction e with
  | number | symbol => rfl
  | signed _ _ _ ih => simp [plain, nodes, ih]
  | binary _ _ _ _ ihl ihr => simp [plain, nodes, ihl, ihr]
  | call _ _ _ _ ih => simp [plain, nodes, ih]

/-- Nor do they make a difference to its free names. -/
theorem freeNames_plain (e : Formula) : e.plain.freeNames = e.freeNames := by
  have hname (node : Formula) :
      node.plain.freeSymbol?.map Symbol.name = node.freeSymbol?.map Symbol.name := by
    cases node with
    | symbol s =>
        simp only [plain, freeSymbol?]
        split <;> rfl
    | _ => rfl
  simp only [freeNames, freeSymbols, walk_eq_nodes, nodes_plain, List.map_filterMap,
    List.filterMap_map]
  congr 1
  exact List.filterMap_congr fun node _ => hname node

variable {e e' : Formula}

/-- Formulas that are the same but for places have the same value. -/
theorem toOption_value_congr (h : e.plain = e'.plain) (b : Bindings) :
    (e.value b).toOption = (e'.value b).toOption := by
  rw [← toOption_value_plain, h, toOption_value_plain]

theorem freeNames_congr (h : e.plain = e'.plain) : e.freeNames = e'.freeNames := by
  rw [← freeNames_plain, h, freeNames_plain]

end Formula

end

end FormulaGrading
