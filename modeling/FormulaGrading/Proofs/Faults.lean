import FormulaGrading.Formula.Value
import FormulaGrading.Proofs.Parsing.Whole

/-!
Where faults come from. Reading a formula, finding its value and setting an exercise each
have causes of their own.
-/

namespace FormulaGrading

/-- What goes on when a fault is found. -/
inductive Stage where
  | reading
  | evaluation
  | setting
  deriving DecidableEq, Repr

/-- The stage that a cause belongs to. -/
def Cause.stage : Cause → Stage
  | .unclosedBracket | .unopenedBracket | .missingOperand _ | .straySign | .unknownText _
  | .noSuchFunction .. | .missingArgument _ | .missingFormula | .tooDeep _ | .tooLong _
  | .strayToken .. => .reading
  | .unboundName .. | .outsideDomain _ | .divisionByZero => .evaluation
  | .undeclaredName .. | .badCredit _ | .badTolerance _ | .noTrials | .badInterval ..
  | .noFullCredit => .setting

/-- Whether a cause is the interval of a variable. -/
def Cause.isBadInterval : Cause → Bool
  | .badInterval .. => true
  | _ => false

/-- Whether a cause is of a single answer, and not of the policy or of all answers. -/
def Cause.isOfAnswer : Cause → Bool
  | .badTolerance _ | .noTrials | .badInterval .. | .noFullCredit => false
  | _ => true

theorem Cause.isOfAnswer_of_stage {c : Cause} (h : c.stage ≠ .setting) : c.isOfAnswer := by
  cases c <;> first | rfl | exact absurd rfl h

theorem Cause.isBadInterval_of_isOfAnswer {c : Cause} (h : c.isOfAnswer) :
    c.isBadInterval = false := by
  cases c <;> first | rfl | exact nomatch h

theorem Cause.IsOfTokens.stage_eq {cause : Cause} (h : cause.IsOfTokens) :
    cause.stage = .reading := by
  cases cause <;> first | rfl | exact h.elim

/-- A text that is no formula has a fault of reading. -/
theorem stage_of_parse {declared : List String} {text : String} {fault : Fault}
    (h : Formula.parse declared text = .error fault) : fault.cause.stage = .reading := by
  cases hscan : Token.scan text with
  | error found =>
      obtain rfl := Except.error.inj ((parse_of_scan_error hscan).symm.trans h)
      obtain ⟨span, lexeme, rfl⟩ := Token.eq_of_scanFrom_eq_error hscan
      rfl
  | ok tokens => exact (fault_of_parse hscan h).1.stage_eq

section

variable {b : Bindings} {span divisor : Span} {x y : Float} {fault : Fault}

theorem stage_of_finiteAt (h : finiteAt span x = .error fault) :
    fault.cause.stage = .evaluation := by
  grind [finiteAt, Cause.stage]

theorem stage_of_valueOf {s : Symbol} (h : b.valueOf s = .error fault) :
    fault.cause.stage = .evaluation := by
  grind [Bindings.valueOf, Cause.stage]

theorem OperatorMark.stage_of_apply {op : OperatorMark}
    (h : op.apply span divisor x y = .error fault) : fault.cause.stage = .evaluation := by
  grind [OperatorMark.apply, stage_of_finiteAt, Cause.stage]

theorem RealFunction.stage_of_callAt {f : RealFunction} {function : Symbol}
    (h : f.callAt function span divisor x = .error fault) :
    fault.cause.stage = .evaluation := by
  grind [RealFunction.callAt, stage_of_finiteAt, Cause.stage]

/-- A formula without a value has a fault of evaluation. -/
theorem Formula.stage_of_value {e : Formula} (h : e.value b = .error fault) :
    fault.cause.stage = .evaluation := by
  induction e with
  | number => exact stage_of_finiteAt h
  | symbol => exact stage_of_valueOf h
  | signed => grind [value]
  | binary => grind [value, OperatorMark.stage_of_apply]
  | call => grind [value, RealFunction.stage_of_callAt, Cause.stage]

end

end FormulaGrading
