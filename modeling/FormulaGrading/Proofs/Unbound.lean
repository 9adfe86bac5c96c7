import FormulaGrading.Proofs.Evaluation
import FormulaGrading.Proofs.Walking

/-!
Names without a value. All operands are evaluated, whatever becomes of them, so a name
that has no value leaves the whole formula without one; and only such a name is reported
as unbound.
-/

namespace FormulaGrading

section

variable {span divisor : Span} {spans : List Span} {name : String} {similar : List String}
  {x y : Float}

theorem finiteAt_ne_unboundName : finiteAt span x ≠ .error ⟨spans, .unboundName name similar⟩ := by
  unfold finiteAt
  split <;> simp

/-- No operation reports an unbound name. -/
theorem OperatorMark.apply_ne_unboundName {op : OperatorMark} :
    op.apply span divisor x y ≠ .error ⟨spans, .unboundName name similar⟩ := by
  unfold apply
  simp only
  split
  case h_4 =>
    split
    · simp
    · exact finiteAt_ne_unboundName
  case h_5 =>
    split
    · simp
    · split
      · simp
      · exact finiteAt_ne_unboundName
  all_goals exact finiteAt_ne_unboundName

/-- No call reports an unbound name. -/
theorem RealFunction.callAt_ne_unboundName {f : RealFunction} {function : Symbol} :
    f.callAt function span divisor x ≠ .error ⟨spans, .unboundName name similar⟩ := by
  unfold callAt
  split
  · exact finiteAt_ne_unboundName
  · simp
  · simp

end

namespace Formula

variable {b : Bindings} {e : Formula} {name : String}

/-- Whether the search for the value of a formula ends at an unbound name. -/
def MeetsUnboundName (e : Formula) (b : Bindings) : Prop :=
  ∃ spans name similar, e.value b = .error ⟨spans, .unboundName name similar⟩

/-- A name that is reported as unbound occurs in the formula and is indeed unbound. -/
theorem isFree_of_value_eq_unboundName {spans : List Span} {similar : List String}
    (h : e.value b = .error ⟨spans, .unboundName name similar⟩) :
    e.IsFree name ∧ b.get? name = none := by
  induction e with
  | number x span => exact absurd h finiteAt_ne_unboundName
  | symbol s =>
      rw [value, Bindings.valueOf] at h
      split at h
      next => cases h
      next hbound =>
        split at h
        next => cases h
        next hconstant =>
          simp only [Except.error.injEq, Fault.mk.injEq, Cause.unboundName.injEq] at h
          obtain ⟨-, rfl, -⟩ := h
          exact ⟨isFree_symbol.2 ⟨rfl, by simp [isConstantName, hconstant]⟩, hbound⟩
  | signed mark operand span ih =>
      rw [value] at h
      split at h
      next => cases h
      next hoperand =>
        obtain rfl := Except.error.inj h
        exact (ih hoperand).imp_left isFree_signed.2
  | binary lhs op rhs span ihl ihr =>
      rw [value] at h
      split at h
      next =>
        split at h
        next => exact absurd h OperatorMark.apply_ne_unboundName
        next hrhs =>
          obtain rfl := Except.error.inj h
          exact (ihr hrhs).imp_left fun hfree => isFree_binary.2 (.inr hfree)
      next hlhs =>
        obtain rfl := Except.error.inj h
        exact (ihl hlhs).imp_left fun hfree => isFree_binary.2 (.inl hfree)
  | call function argument brackets span ih =>
      rw [value] at h
      split at h
      next => simp at h
      next =>
        split at h
        next => exact absurd h RealFunction.callAt_ne_unboundName
        next hargument =>
          obtain rfl := Except.error.inj h
          exact (ih hargument).imp_left isFree_call.2

theorem not_meetsUnboundName (h : ∀ name, e.IsFree name → (b.get? name).isSome) :
    ¬e.MeetsUnboundName b := by
  rintro ⟨spans, name, similar, hvalue⟩
  obtain ⟨hfree, hunbound⟩ := isFree_of_value_eq_unboundName hvalue
  simpa [hunbound] using h name hfree

/-- All names of a formula that has a value are bound. -/
theorem isSome_get?_of_value {v : Float} (h : e.value b = .ok v) (hfree : e.IsFree name) :
    (b.get? name).isSome := by
  induction e generalizing v with
  | number x span => exact absurd hfree isFree_number
  | symbol s =>
      obtain ⟨rfl, hconstant⟩ := isFree_symbol.1 hfree
      rw [value, Bindings.valueOf] at h
      split at h
      next w hbound => simp [hbound]
      next =>
        split at h
        next w hvalue => simp [isConstantName, hvalue] at hconstant
        next => cases h
  | signed mark operand span ih =>
      obtain ⟨x, hx, -⟩ := value_signed_eq_ok_iff.1 h
      exact ih hx (isFree_signed.1 hfree)
  | binary lhs op rhs span ihl ihr =>
      obtain ⟨x, y, hx, hy, -⟩ := value_binary_eq_ok_iff.1 h
      exact (isFree_binary.1 hfree).elim (ihl hx) (ihr hy)
  | call function argument brackets span ih =>
      obtain ⟨f, x, -, hx, -⟩ := value_call_eq_ok_iff.1 h
      exact ih hx (isFree_call.1 hfree)

/-- A name without a value leaves the formula without one. -/
theorem exists_fault_of_unbound (hfree : e.IsFree name) (hunbound : b.get? name = none) :
    ∃ fault, e.value b = .error fault := by
  cases hvalue : e.value b with
  | error fault => exact ⟨fault, rfl⟩
  | ok v => simpa [hunbound] using isSome_get?_of_value hvalue hfree

end Formula

end FormulaGrading
