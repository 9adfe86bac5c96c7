import FormulaGrading.Formula.Value
import FormulaGrading.Parser
import FormulaGrading.Proofs.Binary64.Finite
import FormulaGrading.Proofs.Writing.Written

/-!
How far values are finite. Those of numbers, operations and calls are checked to be; the
value of a variable is not, and neither is that of signs in front of one.
-/

namespace FormulaGrading

section

variable {b : Bindings} {span divisor : Span} {x y v : Float}

theorem eq_of_finiteAt (h : finiteAt span x = .ok v) : v = x ∧ x.isFinite := by
  unfold finiteAt at h
  split at h
  next hfinite => exact ⟨(Except.ok.inj h).symm, hfinite⟩
  next => exact nomatch h

theorem isFinite_of_finiteAt (h : finiteAt span x = .ok v) : v.isFinite := by
  obtain ⟨rfl, hfinite⟩ := eq_of_finiteAt h
  exact hfinite

/-- Whatever an operation yields is finite. -/
theorem OperatorMark.isFinite_of_apply {op : OperatorMark}
    (h : op.apply span divisor x y = .ok v) : v.isFinite := by
  unfold OperatorMark.apply at h
  simp only at h
  split at h
  case h_4 =>
    split at h
    · exact nomatch h
    · exact isFinite_of_finiteAt h
  case h_5 =>
    split at h
    · exact nomatch h
    · split at h
      · exact nomatch h
      · exact isFinite_of_finiteAt h
  all_goals exact isFinite_of_finiteAt h

/-- Whatever a call yields is finite, even if the argument was not. -/
theorem RealFunction.isFinite_of_callAt {f : RealFunction} {function : Symbol}
    (h : f.callAt function span divisor x = .ok v) : v.isFinite := by
  unfold RealFunction.callAt at h
  split at h
  · exact isFinite_of_finiteAt h
  · exact nomatch h
  · exact nomatch h

@[simp] theorem Sign.isFinite_apply (sign : Sign) (x : Float) :
    (sign.apply x).isFinite = x.isFinite := by
  cases sign with
  | plus => rfl
  | minus => exact Decimal.isFinite_neg x

theorem isFinite_of_constant? {name : String} (h : constant? name = some v) : v.isFinite := by
  have htable : ∀ entry ∈ constantTable, entry.2.isFinite := by decide +kernel
  obtain ⟨before, after, htable_eq, -⟩ := List.lookup_eq_some_iff.1 h
  exact htable (name, v) (by simp [htable_eq])

end

namespace Formula

section

variable {b : Bindings} {mark : SignMark} {operand lhs rhs argument : Formula}
  {op : OperatorMark} {function : Symbol} {brackets span : Span} {v : Float}

theorem value_signed_eq_ok_iff :
    (Formula.signed mark operand span).value b = .ok v ↔
      ∃ x, operand.value b = .ok x ∧ mark.sign.apply x = v := by
  rw [value]
  cases operand.value b <;> simp

theorem value_binary_eq_ok_iff :
    (Formula.binary lhs op rhs span).value b = .ok v ↔
      ∃ x y, lhs.value b = .ok x ∧ rhs.value b = .ok y ∧
        op.apply span rhs.span x y = .ok v := by
  rw [value]
  cases lhs.value b with
  | error fault => simp
  | ok x => cases rhs.value b <;> simp

theorem value_call_eq_ok_iff :
    (Formula.call function argument brackets span).value b = .ok v ↔
      ∃ f x, RealFunction.ofName? function.name = some f ∧ argument.value b = .ok x ∧
        f.callAt function span argument.span x = .ok v := by
  rw [value]
  cases RealFunction.ofName? function.name with
  | none => simp
  | some f => cases argument.value b <;> simp

end

/-- The formula behind all signs in front of it. -/
def behindSigns : Formula → Formula
  | .signed _ operand _ => operand.behindSigns
  | e => e

variable {b : Bindings} {e : Formula} {v : Float}

/-- A bound variable behind signs has a value, which is as finite as the one it is bound
to. -/
theorem exists_value_of_behindSigns {s : Symbol} {w : Float}
    (hbehind : e.behindSigns = .symbol s) (hbound : b.get? s.name = some w) :
    ∃ v, e.value b = .ok v ∧ v.isFinite = w.isFinite := by
  induction e with
  | symbol t =>
      obtain rfl := Formula.symbol.inj hbehind
      exact ⟨w, by rw [value, Bindings.valueOf, hbound], rfl⟩
  | signed mark operand span ih =>
      obtain ⟨x, hx, hfinite⟩ := ih hbehind
      exact ⟨mark.sign.apply x, value_signed_eq_ok_iff.2 ⟨x, hx, rfl⟩,
        by rw [Sign.isFinite_apply, hfinite]⟩
  | number => exact nomatch hbehind
  | binary => exact nomatch hbehind
  | call => exact nomatch hbehind

/-- A value is finite unless all that it passed through are signs, from a variable bound to
one that is not. -/
theorem isFinite_value (h : e.value b = .ok v)
    (hbound : ∀ s w, e.behindSigns = .symbol s → b.get? s.name = some w → w.isFinite) :
    v.isFinite := by
  induction e generalizing v with
  | number x span => exact isFinite_of_finiteAt h
  | symbol s =>
      rw [value, Bindings.valueOf] at h
      split at h
      next w hw =>
        obtain rfl := Except.ok.inj h
        exact hbound s w rfl hw
      next =>
        split at h
        next w hw =>
          obtain rfl := Except.ok.inj h
          exact isFinite_of_constant? hw
        next => exact nomatch h
  | signed mark operand span ih =>
      obtain ⟨x, hx, rfl⟩ := value_signed_eq_ok_iff.1 h
      rw [Sign.isFinite_apply]
      exact ih hx hbound
  | binary lhs op rhs span =>
      obtain ⟨x, y, -, -, happly⟩ := value_binary_eq_ok_iff.1 h
      exact OperatorMark.isFinite_of_apply happly
  | call function argument brackets span =>
      obtain ⟨f, x, -, -, hcall⟩ := value_call_eq_ok_iff.1 h
      exact RealFunction.isFinite_of_callAt hcall

/-- A formula has no value if one of its numbers is infinite. -/
theorem isFinite_of_mem_literals (h : e.value b = .ok v) :
    ∀ x ∈ e.literals, x.isFinite := by
  induction e generalizing v with
  | number x span =>
      intro y hy
      obtain rfl := List.mem_singleton.1 hy
      exact (eq_of_finiteAt h).2
  | symbol s => exact nofun
  | signed mark operand span ih =>
      obtain ⟨x, hx, -⟩ := value_signed_eq_ok_iff.1 h
      exact ih hx
  | binary lhs op rhs span ihl ihr =>
      obtain ⟨x, y, hl, hr, -⟩ := value_binary_eq_ok_iff.1 h
      exact List.forall_mem_append.2 ⟨ihl hl, ihr hr⟩
  | call function argument brackets span ih =>
      obtain ⟨f, x, -, hx, -⟩ := value_call_eq_ok_iff.1 h
      exact ih hx

/-- The values that a formula can have are finite, except where it is a variable behind
signs that is bound to a value that is not. -/
theorem value_isFinite_iff (b : Bindings) (e : Formula) :
    (∀ v, e.value b = .ok v → v.isFinite) ↔
      ∀ s w, e.behindSigns = .symbol s → b.get? s.name = some w → w.isFinite := by
  constructor
  · intro h s w hbehind hbound
    obtain ⟨v, hv, hfinite⟩ := exists_value_of_behindSigns hbehind hbound
    exact hfinite ▸ h v hv
  · exact fun hbound v h => isFinite_value h hbound

/-- A variable that is bound to infinity has that value. -/
theorem infinite_value_of_variable :
    Formula.parse ["x"] "x" = .ok (.symbol ⟨"x", ⟨0, 1⟩⟩) ∧
      (Formula.symbol ⟨"x", ⟨0, 1⟩⟩).value (.ofList [("x", Decimal.infinity)]) =
        .ok Decimal.infinity ∧
      Decimal.infinity.isFinite = false :=
  ⟨rfl, rfl, by decide +kernel⟩

end Formula

end FormulaGrading
