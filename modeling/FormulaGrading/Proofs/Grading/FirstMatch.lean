import FormulaGrading.Grading.Equivalence
import FormulaGrading.Proofs.Sampling.Trials
import FormulaGrading.Proofs.Walking

/-!
Comparing by value. A response is worth what the first answer is worth that it agrees with
on every trial, and nothing if there is no such answer. The trials are the same for the
response and for all answers.
-/

namespace FormulaGrading

namespace Grading

open Sampling

/-- The formulas of a comparison: that of the response, and those of all answers that can
be read. -/
def compared (p : Policy) (answers : List Answer) (candidate : Formula) : List Formula :=
  candidate :: answers.filterMap fun a => (Formula.parse p.names a.formula).toOption

/-- Whether values are drawn for certain variables: for those declared, in order, or if
there are none, for all free names of some formulas, sorted and from the usual interval. -/
def DrawnFor (p : Policy) (formulas : List Formula) (vs : List Variable) : Prop :=
  (p.declared ≠ [] ∧ vs = p.declared) ∨
    (p.declared = [] ∧ ∃ names : List String, vs = names.map Variable.usual ∧
      names.Pairwise (· < ·) ∧ ∀ name, name ∈ names ↔ ∃ e ∈ formulas, e.IsFree name)

/-- Whether two formulas have values on a trial that are close: within the tolerance, taken
relative to the reference where that is larger than one. -/
def CloseOn (tolerance : Float) (candidate reference : Formula) (b : Bindings) : Prop :=
  ∃ c r, candidate.value b = .ok c ∧ reference.value b = .ok r ∧
    (c - r).abs ≤ tolerance * (if r.abs > 1.0 then r.abs else 1.0)

theorem closeOn_iff {tolerance : Float} {candidate reference : Formula} {b : Bindings} :
    CloseOn tolerance candidate reference b ↔
      ∃ c r, candidate.value b = .ok c ∧ reference.value b = .ok r ∧ isClose c r tolerance := by
  simp only [CloseOn, isClose, decide_eq_true_eq]

/-- Whether the answer at a place can be read and is close to the response on all
trials. -/
def AgreesAt (p : Policy) (answers : List Answer) (candidate : Formula)
    (trials : List Bindings) (i : Nat) : Prop :=
  ∃ a reference, answers[i]? = some a ∧ Formula.parse p.names a.formula = .ok reference ∧
    ∀ b ∈ trials, CloseOn p.tolerance candidate reference b

/-- Whether a place is that of the first answer that a response agrees with. -/
structure FirstMatch (p : Policy) (answers : List Answer) (seed : UInt64)
    (response : String) (i : Nat) : Prop where
  noFault : p.fault? = none
  agrees : ∃ candidate vs trials, Formula.parse p.names response = .ok candidate ∧
    DrawnFor p (compared p answers candidate) vs ∧ trials? vs p.trials seed = some trials ∧
    trials.length = p.trials ∧ AgreesAt p answers candidate trials i ∧
    ∀ j < i, ¬ AgreesAt p answers candidate trials j

/-- The variables of the trials are determined by the formulas. -/
theorem drawnFor_iff {p : Policy} {formulas : List Formula} {vs : List Variable} :
    DrawnFor p formulas vs ↔ vs = p.sampled formulas := by
  have hfree : ∀ name, (∃ e ∈ formulas, e.IsFree name) ↔
      name ∈ formulas.flatMap Formula.freeNames := by
    intro name
    simp only [List.mem_flatMap, Formula.mem_freeNames]
  rw [DrawnFor, Policy.sampled]
  by_cases hdeclared : p.declared = []
  · simp only [hdeclared, ne_eq, not_true_eq_false, false_and, false_or, true_and,
      List.isEmpty_nil, if_true]
    constructor
    · rintro ⟨names, rfl, hsorted, hmem⟩
      rw [Text.eq_sortedNames hsorted fun name => (hmem name).trans (hfree name)]
    · rintro rfl
      refine ⟨_, rfl, Text.pairwise_sortedNames _, fun name => ?_⟩
      rw [Text.mem_sortedNames, hfree]
  · simp [hdeclared]

theorem agree_iff {tolerance : Float} {candidate reference : Formula} {b : Bindings} :
    agree tolerance (candidate.value b).toOption (reference.value b) ↔
      CloseOn tolerance candidate reference b := by
  unfold CloseOn
  cases candidate.value b with
  | error fault => simp [agree, Except.toOption]
  | ok c =>
      cases reference.value b with
      | error fault => simp [agree, Except.toOption]
      | ok r => simp [agree, Except.toOption, isClose]

/-- The values of the response are lined up with the trials. -/
theorem agreesOnAll_iff {tolerance : Float} {candidate reference : Formula}
    {trials : List Bindings} :
    agreesOnAll tolerance (trials.map fun b => (candidate.value b).toOption) trials reference ↔
      ∀ b ∈ trials, CloseOn tolerance candidate reference b := by
  induction trials with
  | nil => simp [agreesOnAll]
  | cons b rest ih =>
      simp only [agreesOnAll] at ih
      simp [agreesOnAll, agree_iff, ih]

theorem read?_eq_some_iff {p : Policy} {text : String} {e : Formula} :
    p.read? text = some e ↔ Formula.parse p.names text = .ok e := by
  rw [Policy.read?]
  cases Formula.parse p.names text <;> simp [Except.toOption]

/-- The formulas of the answers, in a comparison. -/
theorem compared_eq (p : Policy) (answers : List Answer) (candidate : Formula) :
    compared p answers candidate =
      candidate :: (p.readAnswers answers).map Prod.snd := by
  rw [compared, Policy.readAnswers, List.map_filterMap]
  congr 1
  refine List.filterMap_congr fun a _ => ?_
  rw [Policy.read?]
  cases (Formula.parse p.names a.formula).toOption <;> rfl

/-- Whether an answer can be read and agrees with the values of a response. -/
def agreesWith (p : Policy) (candidate : Formula) (trials : List Bindings) (a : Answer) :
    Bool :=
  (p.read? a.formula).any
    (agreesOnAll p.tolerance (trials.map fun b => (candidate.value b).toOption) trials)

theorem agreesAt_iff {p : Policy} {answers : List Answer} {candidate : Formula}
    {trials : List Bindings} {i : Nat} :
    AgreesAt p answers candidate trials i ↔
      ∃ a, answers[i]? = some a ∧ agreesWith p candidate trials a := by
  refine exists_congr fun a => ?_
  simp only [agreesWith, Option.any_eq_true, read?_eq_some_iff, agreesOnAll_iff]
  constructor
  · rintro ⟨reference, hanswer, hparse, hclose⟩
    exact ⟨hanswer, reference, hparse, hclose⟩
  · rintro ⟨hanswer, reference, hparse, hclose⟩
    exact ⟨reference, hanswer, hparse, hclose⟩

/-- Searching the answers that can be read is searching all answers for one that can be
read and agrees. -/
theorem find?_readAnswers (p : Policy) (answers : List Answer) (candidate : Formula)
    (trials : List Bindings) :
    ((p.readAnswers answers).find? fun reference =>
        agreesOnAll p.tolerance (trials.map fun b => (candidate.value b).toOption) trials
          reference.2).map Prod.fst =
      (answers.findIdx? (agreesWith p candidate trials)).bind fun i => answers[i]? := by
  rw [← List.find?_eq_bind_findIdx?_getElem?, Policy.readAnswers, List.find?_filterMap]
  have hany : (fun a : Answer => ((p.read? a.formula).map fun e => (a, e)).any
      fun reference => agreesOnAll p.tolerance
        (trials.map fun b => (candidate.value b).toOption) trials reference.2) =
      agreesWith p candidate trials := by
    funext a
    rw [agreesWith]
    cases p.read? a.formula <;> rfl
  rw [hany]
  cases hfind : answers.find? (agreesWith p candidate trials) with
  | none => rfl
  | some a =>
      have hagrees := List.find?_some hfind
      rw [agreesWith] at hagrees
      cases hread : p.read? a.formula with
      | none => simp [hread] at hagrees
      | some e => simp [hread]

/-- A search ends at the first place with an answer that is accepted. -/
theorem findIdx?_eq_some_iff_first {answers : List Answer} {accepts : Answer → Bool} {i : Nat} :
    answers.findIdx? accepts = some i ↔
      (∃ a, answers[i]? = some a ∧ accepts a) ∧
        ∀ j < i, ¬∃ a, answers[j]? = some a ∧ accepts a := by
  simp only [List.findIdx?_eq_some_iff_getElem, List.getElem?_eq_some_iff]
  constructor
  · rintro ⟨hi, haccepted, hearlier⟩
    refine ⟨⟨_, ⟨hi, rfl⟩, haccepted⟩, ?_⟩
    rintro j hj ⟨a, ⟨_, rfl⟩, ha⟩
    exact hearlier j hj ha
  · rintro ⟨⟨a, ⟨hi, rfl⟩, haccepted⟩, hearlier⟩
    exact ⟨hi, haccepted, fun j hj ha => hearlier j hj ⟨_, ⟨_, rfl⟩, ha⟩⟩

/-- The first answer that agrees. -/
theorem findIdx?_eq_some_iff {p : Policy} {answers : List Answer} {candidate : Formula}
    {trials : List Bindings} {i : Nat} :
    answers.findIdx? (agreesWith p candidate trials) = some i ↔
      AgreesAt p answers candidate trials i ∧
        ∀ j < i, ¬ AgreesAt p answers candidate trials j := by
  simp only [findIdx?_eq_some_iff_first, agreesAt_iff]

/-- Comparing by value gives the credit of the first answer that the response agrees with,
and no credit if there is none, for as long as the trials can be drawn. -/
theorem verdict_of_first_match (p : Policy) (answers : List Answer) (seed : UInt64)
    (response : String) (hcomparison : p.comparison = .byValue)
    (hdrawn : ∀ candidate vs, p.fault? = none →
      Formula.parse p.names response = .ok candidate →
      DrawnFor p (compared p answers candidate) vs → (trials? vs p.trials seed).isSome) :
    ∃ found : Option Nat, (∀ i, found = some i ↔ FirstMatch p answers seed response i) ∧
      p.verdict? answers seed response = some
        (match found.bind fun i => answers[i]? with
        | some a =>
            { credit := a.credit
              answer? := some a.number
              feedback? := if a.feedback = "" then none else some a.feedback
              grade := .ofCredit a.credit }
        | none => { credit := 0.0, answer? := none, feedback? := none, grade := .wrong }) := by
  rw [Policy.verdict?, hcomparison]
  simp only
  rw [Policy.findByValue?]
  cases hfault : p.fault? with
  | some fault =>
      refine ⟨none, fun i => ⟨nofun, fun hfirst => ?_⟩, rfl⟩
      exact nomatch hfault.symm.trans hfirst.noFault
  | none =>
      simp only [Option.isSome_none, Bool.false_eq_true, if_false]
      cases hread : p.read? response with
      | none =>
          refine ⟨none, fun i => ⟨nofun, fun hfirst => ?_⟩, rfl⟩
          obtain ⟨candidate, -, -, hparse, -⟩ := hfirst.agrees
          exact nomatch hread.symm.trans (read?_eq_some_iff.2 hparse)
      | some candidate =>
          have hparse := read?_eq_some_iff.1 hread
          -- the variables are the ones that the statement determines, and so are the trials
          have hvs : DrawnFor p (compared p answers candidate)
              (p.sampled (candidate :: (p.readAnswers answers).map Prod.snd)) := by
            rw [drawnFor_iff, compared_eq]
          obtain ⟨trials, htrials⟩ :=
            Option.isSome_iff_exists.1 (hdrawn candidate _ hfault hparse hvs)
          simp only [htrials, Option.map_some]
          refine ⟨answers.findIdx? (agreesWith p candidate trials), fun i => ?_, ?_⟩
          · rw [findIdx?_eq_some_iff]
            constructor
            · rintro ⟨hagrees, hearlier⟩
              exact ⟨hfault, candidate, _, trials, hparse, hvs, htrials,
                length_trials? htrials, hagrees, hearlier⟩
            · rintro ⟨-, candidate', vs, trials', hparse', hvs', htrials', -, hagrees⟩
              obtain rfl := Except.ok.inj (hparse.symm.trans hparse')
              obtain rfl := (drawnFor_iff.1 hvs').trans (drawnFor_iff.1 hvs).symm
              obtain rfl := Option.some.inj (htrials.symm.trans htrials')
              exact hagrees
          · rw [find?_readAnswers]
            cases (answers.findIdx? (agreesWith p candidate trials)).bind
              fun i => answers[i]? with
            | none => rfl
            | some a => simp [Verdict.ofSearch, Verdict.ofAnswer]

/-- The second of two answers is the first match, for a variable that can only be two. -/
theorem firstMatch_of_twice :
    FirstMatch { trials := 1, declared := [⟨"x", ⟨2.0, 2.0⟩⟩] }
      [⟨1, "x", 0.5, ""⟩, ⟨2, "x + x", 1.0, "yes"⟩] 0 "2x" 1 := by
  obtain ⟨found, hfound, hverdict⟩ := verdict_of_first_match
    { trials := 1, declared := [⟨"x", ⟨2.0, 2.0⟩⟩] }
    [⟨1, "x", 0.5, ""⟩, ⟨2, "x + x", 1.0, "yes"⟩] 0 "2x" rfl (by
      intro candidate vs _ _ hvs
      obtain ⟨-, rfl⟩ | ⟨hnone, -⟩ := hvs
      · decide +kernel
      · exact nomatch hnone)
  have hvalue : Policy.verdict? { trials := 1, declared := [⟨"x", ⟨2.0, 2.0⟩⟩] }
      [⟨1, "x", 0.5, ""⟩, ⟨2, "x + x", 1.0, "yes"⟩] 0 "2x" =
        some ⟨1.0, some 2, some "yes", .correct⟩ := by decide +kernel
  rw [hvalue] at hverdict
  rw [← hfound]
  rcases found with _ | _ | _ | n
  · simp at hverdict
  · simp at hverdict
  · rfl
  · simp at hverdict

end Grading

end FormulaGrading
