import FormulaGrading.Proofs.Grading.Undeclared

/-!
Lists of answers in two parts. The second part only matters for responses that the first one
has no answer for, as long as it leaves the trials alone: its names are sampled as well if
none are declared. Answers that cannot be read never matter.
-/

namespace FormulaGrading.Grading

open Sampling

variable {p : Policy} {answers more : List Answer} {seed : UInt64} {response : String}
  {candidate : Formula}

namespace Verdict

theorem ofSearch_or (first later : Option Answer) :
    ofSearch (first.or later) =
      if (ofSearch first).answer?.isSome then ofSearch first else ofSearch later := by
  cases first <;> simp

end Verdict

/-- The formulas of all answers, without those that cannot be read. -/
theorem compared_append (p : Policy) (answers more : List Answer) (candidate : Formula) :
    compared p (answers ++ more) candidate =
      compared p answers candidate ++ (p.readAnswers more).map Prod.snd := by
  simp only [compared_eq, Policy.readAnswers, List.filterMap_append, List.map_append,
    List.cons_append]

theorem compared_filter {keep : Answer → Bool}
    (hkeep : ∀ a ∈ answers, ∀ e, Formula.parse p.names a.formula = .ok e → keep a) :
    compared p (answers.filter keep) candidate = compared p answers candidate := by
  rw [compared, compared, List.filterMap_filter]
  congr 1
  refine List.filterMap_congr fun a ha => ?_
  cases hread : Formula.parse p.names a.formula with
  | error fault => simp [Except.toOption]
  | ok e => rw [if_pos (hkeep a ha e hread)]

theorem find?_agreesWith_filter {keep : Answer → Bool} {trials : List Bindings}
    (hkeep : ∀ a ∈ answers, ∀ e, Formula.parse p.names a.formula = .ok e → keep a) :
    (answers.filter keep).find? (agreesWith p candidate trials) =
      answers.find? (agreesWith p candidate trials) := by
  rw [List.find?_filter]
  refine List.find?_congr fun a ha => ?_
  cases hread : p.read? a.formula with
  | none => simp [agreesWith, hread]
  | some e => simp [hkeep a ha e (read?_eq_some_iff.1 hread)]

namespace Policy

/-- Only the names in formulas matter for what is sampled. -/
theorem sampled_congr {formulas others : List Formula}
    (h : ∀ name, (∃ e ∈ formulas, e.IsFree name) ↔ ∃ e ∈ others, e.IsFree name) :
    p.sampled formulas = p.sampled others := by
  refine drawnFor_iff.1 ?_
  simp only [DrawnFor, ← h]
  exact drawnFor_iff.2 rfl

theorem sampled_append {formulas others : List Formula}
    (h : ∀ e ∈ others, ∀ name, e.IsFree name → ∃ e' ∈ formulas, e'.IsFree name) :
    p.sampled (formulas ++ others) = p.sampled formulas := by
  refine sampled_congr fun name => ⟨?_, ?_⟩
  · rintro ⟨e, he, hfree⟩
    obtain hfirst | hlater := List.mem_append.1 he
    · exact ⟨e, hfirst, hfree⟩
    · exact h e hlater name hfree
  · rintro ⟨e, he, hfree⟩
    exact ⟨e, List.mem_append_left _ he, hfree⟩

theorem findByText_append (p : Policy) (answers more : List Answer) (response : String) :
    p.findByText (answers ++ more) response =
      (p.findByText answers response).or (p.findByText more response) := by
  rw [findByText, findByText, findByText]
  split
  · rfl
  · rw [List.find?_append]

theorem verdict?_append_of_byText (hcomparison : p.comparison = .byText) :
    p.verdict? (answers ++ more) seed response =
      (p.verdict? answers seed response).bind fun v =>
        if v.answer?.isSome then some v else p.verdict? more seed response := by
  simp only [verdict?, hcomparison, findByText_append, Verdict.ofSearch_or, Option.bind_some,
    apply_ite some]

/-- With declared variables, the trials are the same for all answers. -/
theorem verdict?_append_of_declared (hdeclared : p.declared ≠ []) :
    p.verdict? (answers ++ more) seed response =
      (p.verdict? answers seed response).bind fun v =>
        if v.answer?.isSome then some v else p.verdict? more seed response := by
  cases hcomparison : p.comparison with
  | byText => exact verdict?_append_of_byText hcomparison
  | byValue =>
      obtain hnone | ⟨candidate, -, hverdict⟩ :=
        verdict?_eq_noCredit_or hcomparison seed response
      · simp only [hnone, Option.bind_some, Verdict.answer?_noCredit, Option.isSome_none,
          Bool.false_eq_true, if_false]
      · simp only [hverdict, sampled_of_declared hdeclared]
        cases trials? p.declared p.trials seed with
        | none => rfl
        | some trials =>
            simp only [Option.map_some, Option.bind_some, List.find?_append,
              Verdict.ofSearch_or, apply_ite some]

/-- Without declared variables, the trials are the same if no name is new. -/
theorem verdict?_append_of_names {v : Verdict}
    (hverdict : p.verdict? answers seed response = some v) (hmatch : v.answer?.isSome)
    (hnames : ∀ candidate, Formula.parse p.names response = .ok candidate →
      ∀ e ∈ compared p more candidate, ∀ name, e.IsFree name →
        ∃ e' ∈ compared p answers candidate, e'.IsFree name) :
    p.verdict? (answers ++ more) seed response = some v := by
  cases hcomparison : p.comparison with
  | byText =>
      rw [verdict?_append_of_byText hcomparison, hverdict, Option.bind_some, if_pos hmatch]
  | byValue =>
      obtain hnone | ⟨candidate, hread, hsearch⟩ :=
        verdict?_eq_noCredit_or hcomparison seed response
      · obtain rfl := Option.some.inj ((hnone answers).symm.trans hverdict)
        exact nomatch hmatch
      · rw [hsearch, compared_append, sampled_append]
        · rw [hsearch] at hverdict
          obtain ⟨trials, hdrawn, rfl⟩ := Option.map_eq_some_iff.1 hverdict
          rw [hdrawn, Option.map_some, List.find?_append, Verdict.ofSearch_or, if_pos hmatch]
        · intro e he
          refine hnames candidate hread e ?_
          rw [compared_eq]
          exact List.mem_cons_of_mem _ he

/-- Answers that cannot be read are neither sampled for nor found. -/
theorem verdict?_filter (hcomparison : p.comparison = .byValue) {keep : Answer → Bool}
    (hkeep : ∀ a ∈ answers, ∀ e, Formula.parse p.names a.formula = .ok e → keep a) :
    p.verdict? (answers.filter keep) seed response = p.verdict? answers seed response := by
  obtain hnone | ⟨candidate, -, hsearch⟩ := verdict?_eq_noCredit_or hcomparison seed response
  · rw [hnone, hnone]
  · rw [hsearch, hsearch, compared_filter hkeep]
    simp only [find?_agreesWith_filter hkeep]

/-- Answers compose as a list that is searched from its front. For texts and for declared
variables, the answers of a second list are those for responses that the first list has no
answer for. Without declared variables, what has an answer in the first list keeps it if
all names in formulas of the second list are in the response or in formulas of the first.
By value, answers can be deleted if they cannot be read. -/
theorem verdict_of_append (p : Policy) (answers more : List Answer) (seed : UInt64)
    (response : String) :
    (p.comparison = .byText ∨ p.declared ≠ [] →
      p.verdict? (answers ++ more) seed response =
        (p.verdict? answers seed response).bind fun v =>
          if v.answer?.isSome then some v else p.verdict? more seed response) ∧
    (∀ v, p.verdict? answers seed response = some v → v.answer?.isSome →
      (∀ candidate, Formula.parse p.names response = .ok candidate →
        ∀ e ∈ compared p more candidate, ∀ name, e.IsFree name →
          ∃ e' ∈ compared p answers candidate, e'.IsFree name) →
      p.verdict? (answers ++ more) seed response = some v) ∧
    (p.comparison = .byValue → ∀ keep : Answer → Bool,
      (∀ a ∈ answers, ∀ e, Formula.parse p.names a.formula = .ok e → keep a) →
      p.verdict? (answers.filter keep) seed response = p.verdict? answers seed response) := by
  refine ⟨?_, fun v => verdict?_append_of_names, fun hcomparison keep hkeep =>
    verdict?_filter hcomparison hkeep⟩
  rintro (hcomparison | hdeclared)
  · exact verdict?_append_of_byText hcomparison
  · exact verdict?_append_of_declared hdeclared

/-- A list whose first part has no answer for the response, one whose later part has no new
name, and one with an answer that cannot be read. -/
theorem verdict_of_three_lists :
    Policy.verdict? { trials := 1, declared := [⟨"x", ⟨2.0, 2.0⟩⟩] }
        ([⟨1, "3x", 1.0, ""⟩] ++ [⟨2, "2x", 0.5, ""⟩]) 0 "x + x" =
      some ⟨0.5, some 2, none, .partly⟩ ∧
    Policy.verdict? { trials := 1 } ([⟨1, "2x", 1.0, ""⟩] ++ [⟨2, "x/0", 0.5, ""⟩]) 0 "x + x" =
      some ⟨1.0, some 1, none, .correct⟩ ∧
    Policy.verdict? { trials := 1 } [⟨2, "2x", 0.5, ""⟩] 0 "x + x" =
      Policy.verdict? { trials := 1 } [⟨1, "2 +", 1.0, ""⟩, ⟨2, "2x", 0.5, ""⟩] 0 "x + x" := by
  refine ⟨?_, ?_, ?_⟩
  · have hfirst : Policy.verdict? { trials := 1, declared := [⟨"x", ⟨2.0, 2.0⟩⟩] }
        [⟨1, "3x", 1.0, ""⟩] 0 "x + x" = some .noCredit := by decide +kernel
    have hlater : Policy.verdict? { trials := 1, declared := [⟨"x", ⟨2.0, 2.0⟩⟩] }
        [⟨2, "2x", 0.5, ""⟩] 0 "x + x" = some ⟨0.5, some 2, none, .partly⟩ := by decide +kernel
    rw [(verdict_of_append _ _ _ _ _).1 (.inr (by simp)), hfirst, hlater]
    rfl
  · refine (verdict_of_append _ _ _ _ _).2.1 _ (by decide +kernel) rfl ?_
    intro candidate hread e he name hfree
    have hcandidate : Policy.read? { trials := 1 } "x + x" = some (.binary
        (.symbol ⟨"x", ⟨0, 1⟩⟩) ⟨.add, false, ⟨2, 3⟩⟩ (.symbol ⟨"x", ⟨4, 5⟩⟩) ⟨0, 5⟩) := by
      decide +kernel
    obtain rfl := Option.some.inj ((read?_eq_some_iff.2 hread).symm.trans hcandidate)
    have honly : ∀ e ∈ compared { trials := 1 } [⟨2, "x/0", 0.5, ""⟩] (.binary
        (.symbol ⟨"x", ⟨0, 1⟩⟩) ⟨.add, false, ⟨2, 3⟩⟩ (.symbol ⟨"x", ⟨4, 5⟩⟩) ⟨0, 5⟩),
        ∀ name ∈ e.freeNames, name = "x" := by decide +kernel
    obtain rfl := honly e he name (Formula.mem_freeNames.2 hfree)
    exact ⟨_, List.mem_cons_self, Formula.mem_freeNames.1 (by decide +kernel)⟩
  · refine (verdict_of_append { trials := 1 } [⟨1, "2 +", 1.0, ""⟩, ⟨2, "2x", 0.5, ""⟩] [] 0
      "x + x").2.2 rfl (fun a => a.number == 2) ?_
    intro a ha e hread
    have hunread : Policy.read? { trials := 1 } "2 +" = none := by decide +kernel
    obtain rfl | hlast := List.mem_cons.1 ha
    · exact nomatch hunread.symm.trans (read?_eq_some_iff.2 hread)
    · obtain rfl := List.mem_singleton.1 hlast
      rfl

end Policy

end FormulaGrading.Grading
