import FormulaGrading.Proofs.Parsing.WellFormed
import FormulaGrading.Proofs.Walking

/-!
The value of a formula by one pass over its nodes in post-order, with a stack for the values
of the operands. The pass comes to what the recursion comes to: the value of the formula
is all that is left on the stack, or else the pass stops at the first node that has no value.
-/

namespace FormulaGrading

namespace OnePass

/-- How far a pass has come. It is stuck at a node that does not find its operands. -/
inductive State where
  /-- The values that have not been used yet, the last one first. -/
  | values (stack : List Float)
  | stopped (fault : Fault)
  | stuck

/-- Puts a value on the stack, if there is one. -/
def State.push (stack : List Float) : Except Fault Float → State
  | .ok x => .values (x :: stack)
  | .error fault => .stopped fault

/-- Replaces the values of the operands by that of the node. -/
def visit (b : Bindings) : List Float → Formula → State
  | stack, .number value span => .push stack (finiteAt span value)
  | stack, .symbol s => .push stack (b.valueOf s)
  | x :: stack, .signed mark _ _ => .values (mark.sign.apply x :: stack)
  | y :: x :: stack, .binary _ op rhs span => .push stack (op.apply span rhs.span x y)
  | x :: stack, .call function argument _ span =>
      match RealFunction.ofName? function.name with
      | some f => .push stack (f.callAt function span argument.span x)
      | none => .stopped ⟨[function.span], .outsideDomain (.withoutValue function.name)⟩
  | _, _ => .stuck

/-- Visits nodes in order, until there is no value for one of them. -/
def run (b : Bindings) (stack : List Float) : List Formula → State
  | [] => .values stack
  | node :: rest =>
      match visit b stack node with
      | .values stack => run b stack rest
      | .stopped fault => .stopped fault
      | .stuck => .stuck

variable {b : Bindings} {stack stack' stack'' : List Float} {nodes nodes' : List Formula}
  {e : Formula} {fault : Fault} {v : Float}

/-- Whether a pass over nodes, all of which have values, ends with a stack. -/
structure Passes (b : Bindings) (stack : List Float) (nodes : List Formula)
    (stack' : List Float) : Prop where
  run_eq : run b stack nodes = .values stack'
  values : ∀ node ∈ nodes, ∃ v, node.value b = .ok v

/-- Whether a pass over nodes stops at the first of them that has no value. -/
structure StopsAt (b : Bindings) (stack : List Float) (before : List Formula) (node : Formula)
    (fault : Fault) : Prop where
  passes : ∃ stack', Passes b stack before stack' ∧ visit b stack' node = .stopped fault
  value_eq : node.value b = .error fault

/-- Whether a pass over nodes stops at one of them. -/
def Stops (b : Bindings) (stack : List Float) (nodes : List Formula) (fault : Fault) : Prop :=
  ∃ before node after, nodes = before ++ node :: after ∧ StopsAt b stack before node fault

theorem run_append (h : run b stack nodes = .values stack') :
    run b stack (nodes ++ nodes') = run b stack' nodes' := by
  induction nodes generalizing stack with
  | nil =>
      obtain rfl := State.values.inj h
      rfl
  | cons node rest ih =>
      rw [run] at h
      split at h
      next hvisit => rw [List.cons_append, run, hvisit]; exact ih h
      next => exact nomatch h
      next => exact nomatch h

theorem Passes.append (h : Passes b stack nodes stack') (h' : Passes b stack' nodes' stack'') :
    Passes b stack (nodes ++ nodes') stack'' :=
  ⟨by rw [run_append h.run_eq, h'.run_eq], List.forall_mem_append.2 ⟨h.values, h'.values⟩⟩

theorem passes_nil : Passes b stack [] stack :=
  ⟨rfl, nofun⟩

theorem passes_singleton (hvisit : visit b stack e = .values (v :: stack'))
    (hvalue : e.value b = .ok v) : Passes b stack [e] (v :: stack') :=
  ⟨by simp [run, hvisit], by simp [hvalue]⟩

theorem stops_singleton (hvisit : visit b stack e = .stopped fault)
    (hvalue : e.value b = .error fault) : Stops b stack [e] fault :=
  ⟨[], e, [], rfl, ⟨stack, passes_nil, hvisit⟩, hvalue⟩

theorem Stops.append (h : Stops b stack nodes fault) (nodes' : List Formula) :
    Stops b stack (nodes ++ nodes') fault := by
  obtain ⟨before, node, after, rfl, hstops⟩ := h
  exact ⟨before, node, after ++ nodes', by simp, hstops⟩

theorem Passes.append_stops (h : Passes b stack nodes stack') (h' : Stops b stack' nodes' fault) :
    Stops b stack (nodes ++ nodes') fault := by
  obtain ⟨before, node, after, rfl, ⟨stack'', hpasses, hvisit⟩, hvalue⟩ := h'
  exact ⟨nodes ++ before, node, after, by simp, ⟨stack'', h.append hpasses, hvisit⟩, hvalue⟩

theorem Stops.run_eq (h : Stops b stack nodes fault) : run b stack nodes = .stopped fault := by
  obtain ⟨before, node, after, rfl, ⟨stack', hpasses, hvisit⟩, -⟩ := h
  rw [run_append hpasses.run_eq, run, hvisit]

/-- Whether a pass over nodes puts an outcome on the stack. -/
def Yields (b : Bindings) (stack : List Float) (nodes : List Formula) :
    Except Fault Float → Prop
  | .ok v => Passes b stack nodes (v :: stack)
  | .error fault => Stops b stack nodes fault

/-- After a pass over the operands, a visit yields the outcome of the root. -/
theorem Passes.yields (h : Passes b stack nodes stack')
    (hvisit : visit b stack' e = .push stack (e.value b)) :
    Yields b stack (nodes ++ [e]) (e.value b) := by
  cases hvalue : e.value b with
  | ok v => exact h.append (passes_singleton (by rw [hvisit, hvalue]; rfl) hvalue)
  | error fault => exact h.append_stops (stops_singleton (by rw [hvisit, hvalue]; rfl) hvalue)

/-- The pass over a formula yields its outcome, if all its functions can be evaluated. -/
theorem yields_nodes (hnodes : ∀ node ∈ e.nodes, node.IsWellFormed) (stack : List Float) :
    Yields b stack e.nodes (e.value b) := by
  induction e generalizing stack with
  | number value span => exact passes_nil.yields rfl
  | symbol s => exact passes_nil.yields rfl
  | signed mark operand span ih =>
      have hoperand := ih (fun node hnode => hnodes node (by simp [Formula.nodes, hnode])) stack
      cases hx : operand.value b with
      | ok x =>
          rw [hx] at hoperand
          exact Passes.yields hoperand (by simp [visit, Formula.value, hx, State.push])
      | error fault =>
          rw [hx] at hoperand
          rw [Formula.value, hx]
          exact Stops.append hoperand _
  | binary lhs op rhs span ihl ihr =>
      have hlhs := ihl (fun node hnode => hnodes node (by simp [Formula.nodes, hnode])) stack
      cases hx : lhs.value b with
      | ok x =>
          rw [hx] at hlhs
          have hrhs := ihr (fun node hnode => hnodes node (by simp [Formula.nodes, hnode]))
            (x :: stack)
          cases hy : rhs.value b with
          | ok y =>
              rw [hy] at hrhs
              exact (Passes.append hlhs hrhs).yields (by simp [visit, Formula.value, hx, hy])
          | error fault =>
              rw [hy] at hrhs
              rw [Formula.value, hx, hy]
              exact (Passes.append_stops hlhs hrhs).append _
      | error fault =>
          rw [hx] at hlhs
          rw [Formula.value, hx]
          exact (Stops.append hlhs _).append _
  | call function argument brackets span ih =>
      have hargument := ih (fun node hnode => hnodes node (by simp [Formula.nodes, hnode])) stack
      obtain ⟨f, hf⟩ : ∃ f, RealFunction.ofName? function.name = some f := by
        cases hnodes (.call function argument brackets span) (by simp [Formula.nodes]) with
        | call _ _ himplemented => exact ⟨_, himplemented⟩
      cases hx : argument.value b with
      | ok x =>
          rw [hx] at hargument
          exact Passes.yields hargument (by simp [visit, Formula.value, hf, hx])
      | error fault =>
          rw [hx] at hargument
          rw [Formula.value, hf, hx]
          exact Stops.append hargument _

theorem Yields.run_eq {outcome : Except Fault Float} (h : Yields b stack nodes outcome) :
    run b stack nodes = .push stack outcome := by
  cases outcome with
  | ok v => exact Passes.run_eq h
  | error fault => exact Stops.run_eq h

/-- Nodes have values as long as the pass over them does not stop. -/
theorem Yields.forall_value_iff {outcome : Except Fault Float}
    (h : Yields b stack nodes outcome) :
    (∃ v, outcome = .ok v) ↔ ∀ node ∈ nodes, ∃ v, node.value b = .ok v := by
  cases outcome with
  | ok v => exact iff_of_true ⟨v, rfl⟩ (Passes.values h)
  | error fault =>
      obtain ⟨before, node, after, rfl, -, hvalue⟩ := h
      refine iff_of_false nofun fun hnodes => ?_
      obtain ⟨v, hv⟩ := hnodes node (by simp)
      exact nomatch hvalue.symm.trans hv

/-- A pass stops for one fault only. -/
theorem Yields.stops_iff {outcome : Except Fault Float} (h : Yields b stack nodes outcome) :
    outcome = .error fault ↔ Stops b stack nodes fault := by
  constructor
  · rintro rfl
    exact h
  · intro hstops
    have hrun := h.run_eq.symm.trans hstops.run_eq
    cases outcome with
    | ok v => exact nomatch hrun
    | error fault' => rw [State.stopped.inj hrun]

end OnePass

/-- The value of a formula that was read is what one pass over its walk leaves on the stack,
and its fault is that of the first node in the walk that has no value, where the pass
stops. -/
theorem value_eq_onePass {declared : List String} {text : String} {e : Formula}
    (hparse : Formula.parse declared text = .ok e) (b : Bindings) :
    OnePass.run b [] e.walk = .push [] (e.value b) ∧
      ((∃ v, e.value b = .ok v) ↔ ∀ node ∈ e.walk, ∃ v, node.value b = .ok v) ∧
      ∀ fault, e.value b = .error fault ↔ ∃ before node after,
        e.walk = before ++ node :: after ∧ OnePass.StopsAt b [] before node fault := by
  have hyields := OnePass.yields_nodes (b := b)
    (fun node hnode => isWellFormed_of_parse hparse hnode) []
  rw [Formula.walk_eq_nodes]
  exact ⟨hyields.run_eq, hyields.forall_value_iff, fun fault => hyields.stops_iff⟩

/-- A quotient whose divisor comes to zero stops the pass after four values. -/
theorem value_eq_onePass_quotient :
    ∃ e, Formula.parse ["x"] "2/(x-x)" = .ok e ∧
      OnePass.run (.ofList [("x", 1.0)]) [] e.walk =
        .stopped ⟨[⟨1, 2⟩, ⟨3, 6⟩], .divisionByZero⟩ ∧
      ∃ before node after, e.walk = before ++ node :: after ∧
        OnePass.StopsAt (.ofList [("x", 1.0)]) [] before node
          ⟨[⟨1, 2⟩, ⟨3, 6⟩], .divisionByZero⟩ := by
  have hparse : Formula.parse ["x"] "2/(x-x)" = .ok (.binary (.number 2.0 ⟨0, 1⟩)
      ⟨.divide, false, ⟨1, 2⟩⟩ (.binary (.symbol ⟨"x", ⟨3, 4⟩⟩) ⟨.subtract, false, ⟨4, 5⟩⟩
        (.symbol ⟨"x", ⟨5, 6⟩⟩) ⟨3, 6⟩) ⟨0, 6⟩) := by decide +kernel
  have hvalue : Formula.value (.ofList [("x", 1.0)]) (.binary (.number 2.0 ⟨0, 1⟩)
      ⟨.divide, false, ⟨1, 2⟩⟩ (.binary (.symbol ⟨"x", ⟨3, 4⟩⟩) ⟨.subtract, false, ⟨4, 5⟩⟩
        (.symbol ⟨"x", ⟨5, 6⟩⟩) ⟨3, 6⟩) ⟨0, 6⟩) =
        .error ⟨[⟨1, 2⟩, ⟨3, 6⟩], .divisionByZero⟩ := by decide +kernel
  obtain ⟨hrun, -, hstops⟩ := value_eq_onePass hparse (.ofList [("x", 1.0)])
  exact ⟨_, hparse, by rw [hrun, hvalue]; rfl, (hstops _).1 hvalue⟩

end FormulaGrading
