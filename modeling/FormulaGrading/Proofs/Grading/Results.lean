import FormulaGrading.Grading.Review
import FormulaGrading.Proofs.Faults
import FormulaGrading.Proofs.Sampling.Drawing
import FormulaGrading.Proofs.Walking
import Mathlib.Tactic.MkIffOfInductiveProp

/-!
When there is a verdict, and when there is a review. Both need trials, and these need
numbers to draw for the declared variables. Nothing keeps a variable from being declared
over an interval that is too wide for that, and a review that has found an interval at fault
draws from it all the same.
-/

namespace FormulaGrading.Grading

open Sampling

/-- Whether a variable can be declared: over the usual interval, or over one between bounds
that are accepted. -/
def Declarable (v : Variable) : Prop :=
  v = .usual v.name ∨ ∃ lower upper, variableWithin v.name lower upper = .ok v

theorem isValid_of_declarable {v : Variable} (h : Declarable v) : v.interval.isValid := by
  obtain husual | ⟨lower, upper, hwithin⟩ := h
  · rw [husual]
    exact Interval.isValid_usual
  · unfold variableWithin Interval.ofBounds? at hwithin
    simp only at hwithin
    split at hwithin
    next interval hbounds =>
      rw [← Except.ok.inj hwithin]
      split at hbounds
      next hvalid => exact Option.some.inj hbounds ▸ hvalid
      next => exact nomatch hbounds
    next => exact nomatch hwithin

/-- Whether a problem is the interval of a variable. -/
def Problem.isAboutInterval (problem : Problem) : Bool :=
  problem.fault.cause.isBadInterval

namespace Policy

variable {p : Policy} {answers : List Answer} {seed : UInt64}

/-- Variables that are not declared can always be drawn. -/
theorem forall_sampled_isDrawable_iff {formulas : List Formula} :
    (∀ v ∈ p.sampled formulas, v.interval.IsDrawable) ↔
      ∀ v ∈ p.declared, v.interval.IsDrawable := by
  unfold sampled
  split
  next hempty =>
    rw [List.isEmpty_iff] at hempty
    refine iff_of_true (fun v hv => ?_) (by simp [hempty])
    obtain ⟨name, -, rfl⟩ := List.mem_map.1 hv
    exact Interval.isDrawable_usual
  next => rfl

/-- Without a fault there is a trial to draw for. -/
theorem trials?_eq_none_iff (hfault : p.fault? = none) (formulas : List Formula)
    (seed : UInt64) :
    trials? (p.sampled formulas) p.trials seed = none ↔
      ∃ v ∈ p.declared, ¬v.interval.IsDrawable := by
  obtain ⟨htrials, -⟩ := p.fault?_eq_none_iff.1 hfault
  rw [← Option.not_isSome_iff_eq_none, isSome_trials?_iff, or_iff_right htrials,
    forall_sampled_isDrawable_iff]
  simp

theorem findByValue?_eq_none_iff {response : String} :
    p.findByValue? answers seed response = none ↔
      p.fault? = none ∧ (∃ e, Formula.parse p.names response = .ok e) ∧
        ∃ v ∈ p.declared, ¬v.interval.IsDrawable := by
  unfold findByValue?
  cases hfault : p.fault? with
  | some fault => simp
  | none =>
      rw [read?]
      cases Formula.parse p.names response with
      | error fault => simp [Except.toOption]
      | ok candidate =>
          have htrials := trials?_eq_none_iff hfault
            (candidate :: (p.readAnswers answers).map Prod.snd) seed
          simp only [Except.toOption, Option.isSome_none, Bool.false_eq_true, if_false,
            true_and, Except.ok.injEq, exists_eq', ← htrials]
          split <;> simp_all

/-- A verdict is missing only if trials cannot be drawn for a response that can be read. -/
theorem verdict?_eq_none_iff {response : String} :
    p.verdict? answers seed response = none ↔
      p.comparison = .byValue ∧ p.fault? = none ∧
        (∃ e, Formula.parse p.names response = .ok e) ∧
          ∃ v ∈ p.declared, ¬v.interval.IsDrawable := by
  unfold verdict?
  cases p.comparison with
  | byValue => simp [findByValue?_eq_none_iff]
  | byText => simp

/-- Whether nothing but trials can show that an answer is at fault. -/
@[mk_iff]
structure PassesReading (p : Policy) (a : Answer) : Prop where
  credit : isCredit a.credit
  declared : ∃ e, Formula.parse p.names a.formula = .ok e ∧
    (p.declared ≠ [] → ∀ name, e.IsFree name → name ∈ p.names)

theorem undeclaredFault?_eq_none_iff {e : Formula} :
    p.undeclaredFault? e = none ↔ ∀ name, e.IsFree name → name ∈ p.names := by
  simp only [undeclaredFault?, Option.map_eq_none_iff, List.find?_eq_none, ← Formula.mem_freeNames,
    Formula.freeNames, Text.mem_sortedNames, List.mem_map]
  simp

theorem answerFault?_eq_none_iff {a : Answer} :
    p.answerFault? p.fault?.isNone a = none ↔
      p.fault? = none ∧ PassesReading p a ∧ ∃ v ∈ p.declared, ¬v.interval.IsDrawable := by
  unfold answerFault?
  by_cases hcredit : isCredit a.credit
  case neg =>
    rw [if_pos (by simpa using hcredit)]
    exact iff_of_false nofun fun h => hcredit h.2.1.credit
  rw [if_neg (by simpa using hcredit)]
  cases hparse : Formula.parse p.names a.formula with
  | error fault =>
      refine iff_of_false nofun fun ⟨_, hpasses, _⟩ => ?_
      obtain ⟨e, he, -⟩ := hpasses.declared
      exact nomatch hparse.symm.trans he
  | ok e =>
      have hundeclared : (if p.declared.isEmpty then none else p.undeclaredFault? e) = none ↔
          PassesReading p a := by
        rw [passesReading_iff, hparse]
        by_cases hempty : p.declared = [] <;>
          simp [hempty, hcredit, undeclaredFault?_eq_none_iff]
      simp only
      split
      next fault hfault =>
        refine iff_of_false nofun fun ⟨_, hpasses, _⟩ => ?_
        exact nomatch hfault.symm.trans (hundeclared.2 hpasses)
      next hnone =>
        rw [and_iff_right (hundeclared.1 hnone)]
        cases hfault : p.fault? with
        | some fault => simp
        | none => simp [trials?_eq_none_iff hfault]

theorem answerProblems?_eq_none_iff {tried : Bool} :
    p.answerProblems? tried answers = none ↔
      ∃ a ∈ answers, p.answerFault? tried a = none := by
  induction answers with
  | nil => simp [answerProblems?]
  | cons a rest ih =>
      rw [answerProblems?]
      cases h : p.answerFault? tried a with
      | none => simp [h]
      | some fault? => simp [h, ih]

/-- A review is missing only if trials cannot be drawn for an answer that has passed all
other checks. -/
theorem review?_eq_none_iff :
    p.review? answers = none ↔
      p.fault? = none ∧ (∃ a ∈ answers, PassesReading p a) ∧
        ∃ v ∈ p.declared, ¬v.interval.IsDrawable := by
  simp only [review?, Option.map_eq_none_iff, answerProblems?_eq_none_iff,
    answerFault?_eq_none_iff]
  constructor
  · rintro ⟨a, ha, hfault, hpasses, hundrawable⟩
    exact ⟨hfault, ⟨a, ha, hpasses⟩, hundrawable⟩
  · rintro ⟨hfault, ⟨a, ha, hpasses⟩, hundrawable⟩
    exact ⟨a, ha, hfault, hpasses, hundrawable⟩

theorem stage_of_faultOnTrials? {e : Formula} {trials : List Bindings} {fault : Fault}
    (h : faultOnTrials? e trials = some fault) : fault.cause.stage = .evaluation := by
  obtain ⟨b, -, hb⟩ := List.exists_of_findSome?_eq_some h
  split at hb
  next => exact nomatch hb
  next found hvalue =>
    obtain rfl := Option.some.inj hb
    exact Formula.stage_of_value hvalue

theorem isOfAnswer_of_answerFault? {tried : Bool} {a : Answer} {fault : Fault}
    (h : p.answerFault? tried a = some (some fault)) : fault.cause.isOfAnswer := by
  unfold answerFault? at h
  split at h
  next =>
    obtain rfl := Option.some.inj (Option.some.inj h)
    rfl
  split at h
  next found hparse =>
    obtain rfl := Option.some.inj (Option.some.inj h)
    exact Cause.isOfAnswer_of_stage (by simp [stage_of_parse hparse])
  simp only at h
  split at h
  next found hundeclared =>
    obtain rfl := Option.some.inj (Option.some.inj h)
    split at hundeclared
    next => exact nomatch hundeclared
    next =>
      obtain ⟨s, -, rfl⟩ := Option.map_eq_some_iff.1 hundeclared
      rfl
  split at h
  next =>
    obtain ⟨trials, -, htrials⟩ := Option.map_eq_some_iff.1 h
    exact Cause.isOfAnswer_of_stage (by simp [stage_of_faultOnTrials? htrials])
  next => exact nomatch Option.some.inj h

/-- The problems with answers have causes of their own. -/
theorem isOfAnswer_of_mem_answerProblems? {tried : Bool} {problems : List Problem}
    (h : p.answerProblems? tried answers = some problems) :
    ∀ problem ∈ problems, problem.fault.cause.isOfAnswer := by
  induction answers generalizing problems with
  | nil =>
      obtain rfl := Option.some.inj h
      simp
  | cons a rest ih =>
      rw [answerProblems?] at h
      split at h
      next => exact nomatch h
      next fault? hanswer =>
        obtain ⟨later, hlater, rfl⟩ := Option.map_eq_some_iff.1 h
        intro problem hmem
        obtain hfirst | hrest := List.mem_append.1 hmem
        · obtain ⟨fault, rfl, rfl⟩ := Option.map_eq_some_iff.1 (Option.mem_toList.1 hfirst)
          exact isOfAnswer_of_answerFault? hanswer
        · exact ih hlater problem hrest

theorem isBadInterval_of_fault? {fault : Fault} (h : p.fault? = some fault) :
    fault.cause.isBadInterval = false := by
  grind [fault?, Cause.isBadInterval]

/-- The intervals at fault are listed one by one in the order of declaration, and other
problems are not about intervals. -/
theorem filter_isAboutInterval_of_review? {problems : List Problem}
    (h : p.review? answers = some problems) :
    problems.filter Problem.isAboutInterval = p.intervalFaults.map Problem.ofExercise := by
  obtain ⟨ofAnswers, hanswers, rfl⟩ := Option.map_eq_some_iff.1 h
  have hpolicy : (p.fault?.toList.map Problem.ofExercise).filter Problem.isAboutInterval = [] := by
    simp only [List.filter_eq_nil_iff, List.forall_mem_map, Option.mem_toList]
    intro fault hfault
    simp [Problem.isAboutInterval, Problem.ofExercise, isBadInterval_of_fault? hfault]
  have hintervals : (p.intervalFaults.map Problem.ofExercise).filter Problem.isAboutInterval =
      p.intervalFaults.map Problem.ofExercise := by
    simp only [List.filter_eq_self, List.forall_mem_map, intervalFaults]
    exact fun _ _ => rfl
  have hofAnswers : ofAnswers.filter Problem.isAboutInterval = [] := by
    rw [List.filter_eq_nil_iff]
    intro problem hmem
    simp [Problem.isAboutInterval, Cause.isBadInterval_of_isOfAnswer
      (isOfAnswer_of_mem_answerProblems? hanswers problem hmem)]
  have hcredits : (if (fullCreditAnswer? answers).isSome then []
      else [Problem.ofExercise ⟨[], .noFullCredit⟩]).filter Problem.isAboutInterval = [] := by
    split <;> rfl
  rw [List.map_append, List.filter_append, List.filter_append, List.filter_append, hpolicy,
    hintervals, hofAnswers, hcredits, List.nil_append, List.append_nil, List.append_nil]

end Policy

end FormulaGrading.Grading
