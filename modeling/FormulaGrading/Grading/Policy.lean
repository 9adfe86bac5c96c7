import FormulaGrading.Fault.Wording
import FormulaGrading.Sampling.Trial

/-!
The policy of an exercise: how responses are compared with its answers.
-/

namespace FormulaGrading.Grading

open Sampling

/-- The two ways of comparing: by value under random trials, or by text. -/
inductive Comparison where
  | byValue
  | byText
  deriving DecidableEq, Repr

/-- A variable with bounds for its values, which must be finite and in order. -/
def variableWithin (name : String) (lower upper : Float) : Except Fault Variable :=
  match Interval.ofBounds? lower upper with
  | some interval => .ok ⟨name, interval⟩
  | none => .error ⟨[], .badInterval name lower upper⟩

/-- How responses are compared with answers. -/
structure Policy where
  comparison : Comparison := .byValue
  trials : Nat := usualTrials
  tolerance : Float := 0.001
  keepsCase : Bool := false
  /-- The declared variables. Without any, the variables are those that the formulas of a
  comparison contain. -/
  declared : List Variable := []
  deriving DecidableEq

namespace Policy

/-- The names of the declared variables. -/
def names (p : Policy) : List String :=
  p.declared.map Variable.name

/-- Declares one more variable. -/
def declare (p : Policy) (v : Variable) : Policy :=
  { p with declared := p.declared ++ [v] }

/-- Whether a number can be a tolerance. -/
def isTolerance (x : Float) : Bool :=
  0.0 ≤ x && x.isFinite

/-- The fault of the policy, if it has one: there must be a trial, and the tolerance must
be finite and not negative. -/
def fault? (p : Policy) : Option Fault :=
  if p.trials = 0 then some ⟨[], .noTrials⟩
  else if isTolerance p.tolerance then none
  else some ⟨[], .badTolerance p.tolerance⟩

@[simp] theorem names_declare (p : Policy) (v : Variable) :
    (p.declare v).names = p.names ++ [v.name] := by
  simp [declare, names]

theorem fault?_eq_none_iff (p : Policy) :
    p.fault? = none ↔ p.trials ≠ 0 ∧ isTolerance p.tolerance := by
  unfold fault?
  split
  · simp_all
  · split <;> simp_all

end Policy

end FormulaGrading.Grading
