import FormulaGrading.Fault.Wording
import FormulaGrading.Proofs.Unbound

/-!
Which bindings a formula looks at. Two sets of bindings that agree on the names in a formula
give it the same value or the same fault; only the suggestions for an unbound name are taken
from all names that are bound.
-/

namespace FormulaGrading

/-- Whether a name occurs in a formula as that of a variable or of a constant. -/
def Formula.Mentions (e : Formula) (name : String) : Prop :=
  ∃ span, .symbol ⟨name, span⟩ ∈ e.nodes

/-- Whether two bindings give a name the same value, or none, as far as a formula mentions it. -/
def Bindings.AgreeOn (e : Formula) (b b' : Bindings) : Prop :=
  ∀ name, e.Mentions name → b.get? name = b'.get? name

/-- Whether two faults differ in nothing but the names suggested for an unbound one. -/
structure Fault.SameButSimilar (f f' : Fault) : Prop where
  spans_eq : f.spans = f'.spans
  message_eq : f.cause.message = f'.cause.message
  cause_eq : f.cause = f'.cause ∨ ∃ name similar similar',
    f.cause = .unboundName name similar ∧ f'.cause = .unboundName name similar'

theorem Fault.SameButSimilar.refl (f : Fault) : f.SameButSimilar f :=
  ⟨rfl, rfl, .inl rfl⟩

/-- Whether two outcomes are the same value, or faults that differ in suggestions only. -/
def AgreeUpToSimilar (x x' : Except Fault Float) : Prop :=
  (∃ v, x = .ok v ∧ x' = .ok v) ∨
    ∃ f f', x = .error f ∧ x' = .error f' ∧ f.SameButSimilar f'

theorem AgreeUpToSimilar.refl (x : Except Fault Float) : AgreeUpToSimilar x x := by
  cases x with
  | ok v => exact .inl ⟨v, rfl, rfl⟩
  | error f => exact .inr ⟨f, f, rfl, rfl, .refl f⟩

theorem AgreeUpToSimilar.fault {f f' : Fault} (h : f.SameButSimilar f') :
    AgreeUpToSimilar (.error f) (.error f') :=
  .inr ⟨f, f', rfl, rfl, h⟩

section

variable {b b' : Bindings} {mark : SignMark} {op : OperatorMark}
  {lhs rhs operand argument : Formula} {function s : Symbol} {brackets span : Span}

theorem Bindings.agreeOn_symbol :
    AgreeOn (.symbol s) b b' ↔ b.get? s.name = b'.get? s.name := by
  constructor
  · exact fun h => h s.name ⟨s.span, by simp [Formula.nodes]⟩
  · rintro h _ ⟨span, hmem⟩
    obtain rfl := Formula.symbol.inj (List.mem_singleton.1 hmem)
    exact h

theorem Bindings.agreeOn_signed :
    AgreeOn (.signed mark operand span) b b' ↔ AgreeOn operand b b' := by
  simp [AgreeOn, Formula.Mentions, Formula.nodes]

theorem Bindings.agreeOn_binary :
    AgreeOn (.binary lhs op rhs span) b b' ↔ AgreeOn lhs b b' ∧ AgreeOn rhs b b' := by
  simp [AgreeOn, Formula.Mentions, Formula.nodes, exists_or, or_imp, forall_and]

theorem Bindings.agreeOn_call :
    AgreeOn (.call function argument brackets span) b b' ↔ AgreeOn argument b b' := by
  simp [AgreeOn, Formula.Mentions, Formula.nodes]

/-- The value of a name depends on its own binding, its suggestions on all. -/
theorem Bindings.agreeUpToSimilar_valueOf (h : b.get? s.name = b'.get? s.name) :
    AgreeUpToSimilar (b.valueOf s) (b'.valueOf s) := by
  unfold Bindings.valueOf
  rw [← h]
  split
  next => exact .refl _
  next =>
    split
    next => exact .refl _
    next => exact .fault ⟨rfl, rfl, .inr ⟨s.name, _, _, rfl, rfl⟩⟩

end

/-- Bindings that agree on what a formula mentions give it the same outcome. -/
theorem Formula.agreeUpToSimilar_value {e : Formula} {b b' : Bindings} (h : b.AgreeOn e b') :
    AgreeUpToSimilar (e.value b) (e.value b') := by
  induction e with
  | number value span => exact .refl _
  | symbol s => exact Bindings.agreeUpToSimilar_valueOf (Bindings.agreeOn_symbol.1 h)
  | signed mark operand span ih =>
      obtain ⟨x, hx, hx'⟩ | ⟨f, f', hx, hx', hsame⟩ := ih (Bindings.agreeOn_signed.1 h) <;>
        simp only [value, hx, hx']
      · exact .refl _
      · exact .fault hsame
  | binary lhs op rhs span ihl ihr =>
      obtain ⟨hlhs, hrhs⟩ := Bindings.agreeOn_binary.1 h
      obtain ⟨x, hx, hx'⟩ | ⟨f, f', hx, hx', hsame⟩ := ihl hlhs
      · obtain ⟨y, hy, hy'⟩ | ⟨f, f', hy, hy', hsame⟩ := ihr hrhs <;>
          simp only [value, hx, hx', hy, hy']
        · exact .refl _
        · exact .fault hsame
      · simp only [value, hx, hx']
        exact .fault hsame
  | call function argument brackets span ih =>
      simp only [value]
      split
      next => exact .refl _
      next =>
        obtain ⟨x, hx, hx'⟩ | ⟨f, f', hx, hx', hsame⟩ := ih (Bindings.agreeOn_call.1 h) <;>
          simp only [hx, hx']
        · exact .refl _
        · exact .fault hsame

/-- The value of a formula depends on the names in it and on nothing else that is bound: the
outcome is the same for bindings that agree on them, up to the names suggested for an
unbound one. A variable without a value leaves the formula without one. -/
theorem value_of_mentioned_names (e : Formula) :
    (∀ b b' : Bindings, b.AgreeOn e b' → AgreeUpToSimilar (e.value b) (e.value b')) ∧
      ∀ (b : Bindings) (name : String), e.Mentions name → isConstantName name = false →
        b.get? name = none → ∃ fault, e.value b = .error fault := by
  refine ⟨fun b b' => Formula.agreeUpToSimilar_value, ?_⟩
  rintro b name ⟨span, hmem⟩ hconstant hunbound
  exact Formula.exists_fault_of_unbound ⟨span, hmem, hconstant⟩ hunbound

/-- A similar name that is bound changes the suggestions for `rate` only. -/
theorem value_of_mentioned_names_rate :
    ∃ e : Formula, e = .binary (.symbol ⟨"pi", ⟨0, 2⟩⟩) ⟨.multiply, false, ⟨2, 3⟩⟩
        (.symbol ⟨"rate", ⟨3, 7⟩⟩) ⟨0, 7⟩ ∧
      Bindings.AgreeOn e (.ofList [("rates", 1.0)]) ∅ ∧
      AgreeUpToSimilar (e.value (.ofList [("rates", 1.0)])) (e.value ∅) ∧
      e.value (.ofList [("rates", 1.0)]) ≠ e.value ∅ ∧
      e.Mentions "rate" ∧ isConstantName "rate" = false ∧ ∃ fault, e.value ∅ = .error fault := by
  refine ⟨_, rfl, ?_⟩
  have hagree : Bindings.AgreeOn (.binary (.symbol ⟨"pi", ⟨0, 2⟩⟩)
      ⟨.multiply, false, ⟨2, 3⟩⟩ (.symbol ⟨"rate", ⟨3, 7⟩⟩) ⟨0, 7⟩)
      (.ofList [("rates", 1.0)]) ∅ :=
    Bindings.agreeOn_binary.2 ⟨Bindings.agreeOn_symbol.2 (by decide +kernel),
      Bindings.agreeOn_symbol.2 (by decide +kernel)⟩
  have hmentions : Formula.Mentions (.binary (.symbol ⟨"pi", ⟨0, 2⟩⟩)
      ⟨.multiply, false, ⟨2, 3⟩⟩ (.symbol ⟨"rate", ⟨3, 7⟩⟩) ⟨0, 7⟩) "rate" :=
    ⟨⟨3, 7⟩, by simp [Formula.nodes]⟩
  obtain ⟨hsame, hunbound⟩ := value_of_mentioned_names (.binary (.symbol ⟨"pi", ⟨0, 2⟩⟩)
    ⟨.multiply, false, ⟨2, 3⟩⟩ (.symbol ⟨"rate", ⟨3, 7⟩⟩) ⟨0, 7⟩)
  exact ⟨hagree, hsame _ _ hagree, by decide +kernel, hmentions, by decide,
    hunbound ∅ "rate" hmentions (by decide) rfl⟩

end FormulaGrading
